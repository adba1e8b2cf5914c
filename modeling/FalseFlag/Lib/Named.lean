/-
  Enumerations carried by strings.

  A wire format often types a closed set of names as a plain string: a reader must accept any
  text, and only a later check rejects the unknown ones.  `Named α` is that type for an
  enumeration `α`: a member of `α`, or a text that names NO member (the proof is a field, so the
  two cases cannot overlap and equality of values is equality of texts).
-/

/-- An enumeration whose members have distinct names. -/
class StringEnum (α : Type) where
  name : α → String
  parse : String → Option α
  parse_name : ∀ a, parse (name a) = some a
  name_of_parse : ∀ {s a}, parse s = some a → name a = s

/-- A text read as a member of `α`, or kept as it is when it names none. -/
inductive Named (α : Type) [StringEnum α] where
  | known (a : α)
  | other (s : String) (h : (StringEnum.parse s : Option α) = none)

namespace Named

variable {α : Type} [StringEnum α]

/-- Read a text. -/
def ofString (s : String) : Named α :=
  match h : (StringEnum.parse s : Option α) with
  | some a => .known a
  | none => .other s h

/-- The text of a value. -/
def toString : Named α → String
  | .known a => StringEnum.name a
  | .other s _ => s

/-- A name that parses is known, -/
theorem ofString_eq_known {s : String} {a : α} (h : StringEnum.parse s = some a) :
    ofString s = .known a := by
  unfold ofString
  split
  · rename_i a' h'
    rw [h] at h'
    injection h' with h'
    rw [h']
  · rename_i h'
    rw [h] at h'
    nomatch h'

/-- any other is kept. -/
theorem ofString_eq_other {s : String} (h : (StringEnum.parse s : Option α) = none) :
    (ofString s : Named α) = .other s h := by
  unfold ofString
  split
  · rename_i a' h'
    rw [h] at h'
    nomatch h'
  · rfl

/-- Writing a value and reading it back gives the value. -/
@[simp] theorem ofString_toString : ∀ v : Named α, ofString v.toString = v
  | .known a => ofString_eq_known (StringEnum.parse_name a)
  | .other _ h => ofString_eq_other h

/-- Names are told apart by their text. -/
theorem toString_inj {v w : Named α} : v.toString = w.toString ↔ v = w := by
  constructor
  · intro h
    rw [← ofString_toString v, h, ofString_toString]
  · intro h
    rw [h]

instance : DecidableEq (Named α) := fun v w => decidable_of_iff _ (toString_inj (v := v) (w := w))

end Named
