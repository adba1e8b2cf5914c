/-
  JSON values in ECMAScript.

  `JSON.parse` keeps the members of an object in an order of its own: array indices first, in
  increasing order, then the other names as they were first written; a repeated name keeps its
  first place and its last value.  `JSON.stringify` writes that order, so two objects with the same
  members can have different texts.

  Reading a property of what was parsed can leave JSON: a missing name is looked for in the
  prototypes, which hold functions, and an array has a `length`.  `Value` has what such a read can
  give; `function`s are told apart by the prototype they stand in and their name.

  Strings are of a type `S`, texts or code units, and numbers of a type that may have an infinity:
  `JSON.parse` reads one where a number is too large, and `JSON.stringify` writes it as `null`.

  * `carries_parse` — parsing passes a document on, in the sense of `Carries`;
  * `stringify_eq_iff` — texts are equal exactly if the JSON they write is, order included.
-/
import FalseFlag.Lib.JsonCarry
import FalseFlag.Lib.JsonText
import Mathlib.Algebra.Order.Ring.Rat
import Mathlib.Algebra.Group.Nat.Defs
import Mathlib.Data.List.Sort

namespace Ecma

open List JsonTree Json Option Strings

/-! ## Own properties -/

/-- The array index a name stands for: digits without leading zero, below `2 ^ 32 - 1`. -/
def arrayIndex? (name : String) : Option Nat :=
  let digits := name.toList
  let n := digits.foldl (fun n c => 10 * n + (c.toNat - '0'.toNat)) 0
  if digits ≠ [] ∧ digits.all Char.isDigit ∧ (digits.head? = some '0' → digits = ['0']) ∧
      n < 2 ^ 32 - 1 then some n
  else none

section Own

variable {S α : Type} [DecidableEq S]

/-- Set a property: a new one goes to the end. -/
def setOwn (k : S) (v : α) : List (S × α) → List (S × α)
  | [] => [(k, v)]
  | (k', v') :: ms => if k = k' then (k, v) :: ms else (k', v') :: setOwn k v ms

theorem lookup_setOwn (k k' : S) (v : α) : ∀ ms : List (S × α),
    (setOwn k v ms).lookup k' = if k' = k then some v else ms.lookup k'
  | [] => lookup_cons_ite k k' v []
  | (k1, v1) :: ms => by
    rw [setOwn]
    split
    · rename_i hk
      rw [lookup_cons_ite, lookup_cons_ite, ← hk]
      split <;> rfl
    · rename_i hk
      exact lookup_set_cons hk (lookup_setOwn k k' v ms)

theorem mem_names_setOwn {k k' : S} {v : α} : ∀ {ms : List (S × α)},
    k' ∈ (setOwn k v ms).map Prod.fst → k' = k ∨ k' ∈ ms.map Prod.fst
  | [], h => .inl (mem_singleton.mp h)
  | (k1, v1) :: ms, h => by
    rw [setOwn] at h
    split at h
    · rename_i hk
      subst hk
      exact .inr h
    · rcases mem_cons.mp h with h | h
      · exact .inr (h ▸ mem_cons_self)
      · exact (mem_names_setOwn h).imp id (mem_cons_of_mem _)

theorem nodup_setOwn {k : S} {v : α} : ∀ {ms : List (S × α)},
    (ms.map Prod.fst).Nodup → ((setOwn k v ms).map Prod.fst).Nodup
  | [], _ => nodup_singleton _
  | (k1, v1) :: ms, h => by
    obtain ⟨hk1, hms⟩ := nodup_cons.mp h
    rw [setOwn]
    split
    · rename_i hk
      subst hk
      exact h
    · rename_i hk
      refine nodup_cons.mpr ⟨fun hmem => ?_, nodup_setOwn hms⟩
      rcases mem_names_setOwn hmem with heq | hmem
      · exact hk heq.symm
      · exact hk1 hmem

end Own

section Order

variable {S α : Type} [Strings S]

/-- The array index that a property stands for. -/
abbrev index? (name : S) : Option Nat := arrayIndex? (text name)

/-- The order in which own properties are listed. -/
def ownOrder (ms : List (S × α)) : List (S × α) :=
  (ms.filter fun m => (index? m.1).isSome).insertionSort
      (fun a b => (index? a.1).getD 0 ≤ (index? b.1).getD 0) ++
    ms.filter fun m => !(index? m.1).isSome

theorem perm_ownOrder (ms : List (S × α)) : (ownOrder ms).Perm ms :=
  ((perm_insertionSort _ _).append_right _).trans (filter_append_perm _ _)

end Order

/-! ## JSON.parse -/

section Parse

variable {N M S : Type} [Strings S] [DecidableEq S]

mutual

/-- `JSON.parse`; `f` reads the numbers. -/
def parse (f : N → M) : Json N S → Json M S
  | .null => .null
  | .bool b => .bool b
  | .num n => .num (f n)
  | .str s => .str s
  | .arr items => .arr (parseItems f items)
  | .obj members => .obj (ownOrder (parseMembers f [] members))
  termination_by structural d => d

/-- `parse` on the items of an array. -/
def parseItems (f : N → M) : List (Json N S) → List (Json M S)
  | [] => []
  | x :: xs => parse f x :: parseItems f xs
  termination_by structural ds => ds

/-- `parse` on the members of an object, added to those read so far. -/
def parseMembers (f : N → M) (acc : List (S × Json M S)) :
    List (S × Json N S) → List (S × Json M S)
  | [] => acc
  | (k, v) :: ms => parseMembers f (setOwn k (parse f v) acc) ms
  termination_by structural ms => ms

end

theorem parseItems_eq_map (f : N → M) (items : List (Json N S)) :
    parseItems f items = items.map (parse f) := by
  induction items with
  | nil => rfl
  | cons x xs ih => rw [parseItems, ih, map_cons]

theorem lookup_parseMembers (f : N → M) (k : S) :
    ∀ (ms : List (S × Json N S)) (acc : List (S × Json M S)),
      (parseMembers f acc ms).lookup k = ((ms.reverse.lookup k).map (parse f)).or (acc.lookup k)
  | [], acc => by simp [parseMembers]
  | (k1, v1) :: ms, acc => by
    rw [parseMembers, lookup_parseMembers f k ms, lookup_setOwn, reverse_cons,
      lookup_append]
    rcases ms.reverse.lookup k with _ | v
    · by_cases h : k = k1
      · simp [h]
      · simp [lookup_cons, h, beq_eq_false_iff_ne.mpr h]
    · simp

theorem nodup_parseMembers (f : N → M) : ∀ (ms : List (S × Json N S))
    {acc : List (S × Json M S)}, (acc.map Prod.fst).Nodup →
    ((parseMembers f acc ms).map Prod.fst).Nodup
  | [], _, h => by rwa [parseMembers]
  | (k, v) :: ms, _, h => by
    rw [parseMembers]
    exact nodup_parseMembers f ms (nodup_setOwn h)

/-- **Parsing passes a document on.** -/
theorem carries_parse (f : N → M) (d : Json N S) : Carries (fun n q => q = f n) d (parse f d) := by
  induction d with
  | null => exact .null
  | bool b => exact .bool b
  | num n => exact .num rfl
  | str s => exact .str s
  | arr items ih =>
    rw [parse, parseItems_eq_map]
    exact .arr (Relators.forall₂_map_right ih)
  | obj members ih =>
    rw [parse]
    have hnodup := nodup_parseMembers f members (show (([] : List (S × Json M S)).map _).Nodup from
      nodup_nil)
    have hperm := perm_ownOrder (parseMembers f [] members)
    have hnodup' := (hperm.map Prod.fst).nodup_iff.mpr hnodup
    refine .obj hnodup' fun k => ?_
    rw [lookup_perm hperm hnodup', lookup_parseMembers]
    rcases hk : members.reverse.lookup k with _ | v
    · exact .none
    · exact .some (ih (k, v) (mem_reverse.mp (mem_of_lookup hk)))

/-- What was parsed has each name once. -/
theorem noDup_parse (f : N → M) (d : Json N S) : NoDup (parse f d) := (carries_parse f d).noDup d

/-- What was parsed, as a tree of texts, is the value of the document. -/
theorem norm_text_parse (f : N → M) (d : Json N S) (h : (parse f d).Textual) :
    (parse f d).text.norm id = d.text.norm f :=
  Carries.norm_eq (fun _ _ h => h) _ ((carries_parse f d).text d h)

end Parse

/-! ## Values -/

/-- What reading properties of parsed values, and array literals of such reads, can give. -/
inductive Value (N : Type := ℚ) (S : Type := String) where
  | undefined
  | function (proto name : String)
  | objectPrototype
  | arrayPrototype
  | data (v : Json N S)
  | list (items : List (Value N S))

/-- Numbers: those that are finite, the length of an array, and `===`. -/
class Numbers (N : Type) where
  finite? : N → Option ℚ
  ofNat : ℕ → N
  same : N → N → Bool

/-- Where every number is finite. -/
instance : Numbers ℚ where
  finite? := some
  ofNat n := n
  same a b := decide (a = b)

/-- The numbers that there are. -/
inductive Number where
  | nan
  | infinity (negative : Bool)
  | finite (q : ℚ)
  deriving DecidableEq

instance : Numbers Number where
  finite? n := match n with
    | .finite q => some q
    | _ => none
  ofNat n := .finite n
  same a b := decide (a = b ∧ a ≠ .nan)

/-- How two numbers compare; `NaN` does not. -/
def Number.cmp : Number → Number → Option Ordering
  | .nan, _ | _, .nan => none
  | .finite a, .finite b => some (compare a b)
  | .infinity a, .infinity b => some (if a = b then .eq else if a then .lt else .gt)
  | .infinity a, .finite _ => some (if a then .lt else .gt)
  | .finite _, .infinity b => some (if b then .gt else .lt)

variable {N S : Type}

/-- The results of `typeof`. -/
inductive TypeOf where
  | undefined | boolean | number | string | object | function
  deriving DecidableEq

/-- `typeof x`. -/
def Value.typeOf : Value N S → TypeOf
  | .undefined => .undefined
  | .function _ _ => .function
  | .data (.bool _) => .boolean
  | .data (.num _) => .number
  | .data (.str _) => .string
  | .data .null | .data (.arr _) | .data (.obj _) => .object
  | .objectPrototype | .arrayPrototype | .list _ => .object

/-- `x === null`. -/
def Value.isNull : Value N S → Bool
  | .data .null => true
  | _ => false

/-- `Array.isArray(x)`. -/
def Value.isArray : Value N S → Bool
  | .data (.arr _) | .list _ | .arrayPrototype => true
  | _ => false

/-- The elements of an array. -/
def Value.items : Value N S → List (Value N S)
  | .data (.arr items) => items.map .data
  | .list items => items
  | _ => []

/-- `a === b` on primitives, functions and prototypes.  Two other objects may be one object or
    not; here they count as two. -/
def strictEq [Numbers N] [DecidableEq S] : Value N S → Value N S → Bool
  | .undefined, .undefined => true
  | .function p n, .function p' n' => p == p' && n == n'
  | .objectPrototype, .objectPrototype => true
  | .arrayPrototype, .arrayPrototype => true
  | .data .null, .data .null => true
  | .data (.bool a), .data (.bool b) => a == b
  | .data (.num a), .data (.num b) => Numbers.same a b
  | .data (.str a), .data (.str b) => a == b
  | _, _ => false

/-! ### Properties -/

/-- The methods of `Object.prototype`. -/
def objectMethods : List String :=
  ["constructor", "hasOwnProperty", "isPrototypeOf", "propertyIsEnumerable", "toLocaleString",
   "toString", "valueOf", "__defineGetter__", "__defineSetter__", "__lookupGetter__",
   "__lookupSetter__"]

/-- The methods of `Array.prototype`. -/
def arrayMethods : List String :=
  ["at", "concat", "constructor", "copyWithin", "entries", "every", "fill", "filter", "find",
   "findIndex", "findLast", "findLastIndex", "flat", "flatMap", "forEach", "includes", "indexOf",
   "join", "keys", "lastIndexOf", "map", "pop", "push", "reduce", "reduceRight", "reverse", "shift",
   "slice", "some", "sort", "splice", "toLocaleString", "toReversed", "toSorted", "toSpliced",
   "toString", "unshift", "values", "with"]

section Properties

variable [Numbers N] [Strings S] [DecidableEq S]

/-- A name that an object with prototype `proto` finds in `Object.prototype`. -/
def objectInherited (proto : Value N S) (name : String) : Value N S :=
  if name = "__proto__" then proto
  else if name ∈ objectMethods then .function "Object" name
  else .undefined

/-- A property of an array with prototype `proto` and these elements. -/
def arrayProperty (proto : Value N S) (items : List (Value N S)) (name : String) : Value N S :=
  match arrayIndex? name with
  | some i => items[i]?.getD .undefined
  | none =>
    if name = "length" then .data (.num (Numbers.ofNat items.length))
    else if name ∈ arrayMethods then .function "Array" name
    else objectInherited proto name

/-- `x[name]`, for an object `x`.  Names that are not its own are texts. -/
def getProperty : Value N S → S → Value N S
  | .data (.obj members), name =>
    match members.lookup name with
    | some v => .data v
    | none => objectInherited .objectPrototype (text name)
  | .data (.arr items), name => arrayProperty .arrayPrototype (items.map .data) (text name)
  | .list items, name => arrayProperty .arrayPrototype items (text name)
  | .arrayPrototype, name => arrayProperty .objectPrototype [] (text name)
  | .objectPrototype, name => objectInherited (.data .null) (text name)
  | _, _ => .undefined

end Properties

/-! ### JSON.stringify -/

section Stringify

variable [Numbers N]

/-- The JSON that is written for a number. -/
def numberJson (n : N) : Json ℚ S :=
  match Numbers.finite? n with
  | some q => .num q
  | none => .null

/-- The JSON that is written for JSON. -/
abbrev written : Json N S → Json ℚ S := Json.replace numberJson id

mutual

/-- The JSON that is written for a value, if any. -/
def Value.toJson : Value N S → Option (Json ℚ S)
  | .undefined | .function _ _ => none
  | .objectPrototype => some (.obj [])
  | .arrayPrototype => some (.arr [])
  | .data v => some (written v)
  | .list items => some (.arr (toJsonItems items))
  termination_by structural v => v

/-- Inside an array what cannot be written is `null`. -/
def toJsonItems : List (Value N S) → List (Json ℚ S)
  | [] => []
  | x :: xs => x.toJson.getD .null :: toJsonItems xs
  termination_by structural vs => vs

end

/-- `JSON.stringify`; `code` spells the numbers and the strings. -/
def stringify (code : Code ℚ S) (v : Value N S) : Option (List Char) := v.toJson.map code.render

/-- Equal texts come from equal JSON, order included. -/
theorem stringify_eq_iff {code : Code ℚ S} {a b : Value N S} :
    stringify code a = stringify code b ↔ a.toJson = b.toJson := by
  unfold stringify
  constructor
  · exact fun h => map_injective (Code.render_injective _) h
  · exact fun h => by rw [h]

/-- Finite numbers are written as they are. -/
theorem written_finite {f : ℚ → N} (hf : ∀ q, Numbers.finite? (f q) = some q) (v : Json ℚ S) :
    written (v.mapNum f) = v := by
  refine Json.replace_cancel (fun q => ?_) (fun _ => rfl) v
  show numberJson (f q) = _
  rw [numberJson, hf]

end Stringify

/-! ## Values that are JSON throughout -/

mutual

/-- The JSON value that a value is, if there is nothing else in it. -/
def Value.plain : Value N S → Option (Json N S)
  | .data v => some v
  | .list items => (plainItems items).map .arr
  | .undefined | .function _ _ | .objectPrototype | .arrayPrototype => none
  termination_by structural v => v

/-- `plain` on the elements of an array. -/
def plainItems : List (Value N S) → Option (List (Json N S))
  | [] => some []
  | x :: xs => x.plain.bind fun v => (plainItems xs).map (v :: ·)
  termination_by structural vs => vs

end

/-- A plain value is data or an array. -/
theorem plain_cases {x : Value N S} {v : Json N S} (h : x.plain = some v) :
    x = .data v ∨ ∃ items vs, x = .list items ∧ v = .arr vs ∧ plainItems items = some vs := by
  cases x with
  | data w =>
    rw [Value.plain] at h
    injection h with h
    exact .inl (h ▸ rfl)
  | list items =>
    rw [Value.plain] at h
    obtain ⟨vs, hvs, rfl⟩ := map_eq_some_iff.mp h
    exact .inr ⟨items, vs, rfl, rfl, hvs⟩
  | undefined | function _ _ | objectPrototype | arrayPrototype =>
    rw [Value.plain] at h
    nomatch h

mutual

/-- What is written for a plain value. -/
theorem toJson_of_plain [Numbers N] : ∀ {x : Value N S} {v : Json N S}, x.plain = some v →
    x.toJson = some (written v)
  | .data w, v, h => by
    rw [Value.plain] at h
    rw [Value.toJson, some.inj h]
  | .list items, v, h => by
    rw [Value.plain] at h
    obtain ⟨vs, hvs, rfl⟩ := map_eq_some_iff.mp h
    rw [Value.toJson, toJsonItems_of_plain hvs, written, Json.replace, replaceItems_eq_map]
  | .undefined, v, h | .function _ _, v, h | .objectPrototype, v, h | .arrayPrototype, v, h => by
    rw [Value.plain] at h
    nomatch h
  termination_by structural x => x

theorem toJsonItems_of_plain [Numbers N] : ∀ {xs : List (Value N S)} {vs : List (Json N S)},
    plainItems xs = some vs → toJsonItems xs = vs.map written
  | [], vs, h => by
    rw [plainItems] at h
    rw [toJsonItems, ← some.inj h, map_nil]
  | x :: xs, vs, h => by
    rw [plainItems] at h
    obtain ⟨v, hv, h⟩ := bind_eq_some_iff.mp h
    obtain ⟨ws, hws, rfl⟩ := map_eq_some_iff.mp h
    rw [toJsonItems, toJson_of_plain hv, toJsonItems_of_plain hws, getD_some,
      map_cons]
  termination_by structural xs => xs

end

theorem plainItems_data (vs : List (Json N S)) : plainItems (vs.map .data) = some vs := by
  induction vs with
  | nil => rfl
  | cons v vs ih =>
    rw [map_cons, plainItems, ih]
    rfl

/-- The elements of a plain array. -/
theorem plainItems_items {x : Value N S} {vs : List (Json N S)} (h : x.plain = some (.arr vs)) :
    x.isArray = true ∧ plainItems x.items = some vs := by
  rcases plain_cases h with rfl | ⟨items, ws, rfl, hws, hitems⟩
  · exact ⟨rfl, plainItems_data vs⟩
  · injection hws with hws
    exact ⟨rfl, hws ▸ hitems⟩

/-- What is no array in JSON is no array. -/
theorem isArray_of_plain {x : Value N S} {v : Json N S} (h : x.plain = some v)
    (hv : ∀ vs, v ≠ .arr vs) : x.isArray = false := by
  rcases plain_cases h with rfl | ⟨items, vs, rfl, rfl, -⟩
  · cases v with
    | arr vs => exact absurd rfl (hv vs)
    | _ => rfl
  · exact absurd rfl (hv vs)

end Ecma
