/-
  JSON trees over arbitrary types of numbers and strings.

  A JSON document and the value a program decodes from it are the same tree read two ways: the
  document keeps the members of an object in the order they were written, repeats included, and
  spells its numbers; the value has each member once and its numbers are numbers.  `Json N` is the
  tree, with `N` the numbers, and `norm` reads a document as a value: every number goes through
  `f : N → M`, and an object keeps the LAST occurrence of each name, names in increasing order.
  The order makes `norm` canonical, so that "the same JSON value" is equality of `norm`s.

  Strings are texts, unless said otherwise: `Json N S` has strings of another type, such as lists of
  code units, that some programs take for texts (`Strings`, `Json.text`).  Two strings may be one
  text; a tree that loses nothing is `Textual`.

  * `lookup_normMembers` — a name of the canonical object holds the last value written for it;
  * `Json.NoDup` — no object of the tree writes a name twice; under it `lookup` on the document and
    on the canonical object agree.
-/
import Mathlib.Data.List.Nodup

namespace JsonTree

open List

/-- A JSON tree whose numbers are taken from `N`; object members stand in written order. -/
inductive Json (N : Type) (S : Type := String) where
  | null
  | bool (b : Bool)
  | num (n : N)
  | str (s : S)
  | arr (items : List (Json N S))
  | obj (members : List (S × Json N S))

/-- Strings of a language, the texts that others make of them, and texts as such strings. -/
class Strings (S : Type) where
  text : S → String
  ofText : String → S
  text_ofText : ∀ s, text (ofText s) = s
  /-- A text that is empty is made of the empty string only. -/
  ofText_empty : ∀ {s}, text s = "" → s = ofText ""
  /-- The parts between full stops. -/
  split : S → List S
  text_split : ∀ s, (split s).map text = ((text s).toList.splitOn '.').map String.ofList
  startsWith : S → S → Bool

theorem Strings.ofText_injective {S : Type} [Strings S] {s t : String}
    (h : (ofText s : S) = ofText t) : s = t := by
  rw [← text_ofText (S := S) s, h, text_ofText]

instance : Strings String where
  text := id
  ofText := id
  text_ofText _ := rfl
  ofText_empty h := h
  split s := (s.toList.splitOn '.').map String.ofList
  text_split _ := map_id _
  startsWith s head := head.toList.isPrefixOf s.toList

namespace Json

variable {N M S : Type}

/-! ## Induction over trees -/

/-- Induction over trees: an array or an object may use the property of everything it holds. -/
@[induction_eliminator]
theorem induct {P : Json N S → Prop} (null : P .null) (bool : ∀ b, P (.bool b))
    (num : ∀ n, P (.num n)) (str : ∀ s, P (.str s))
    (arr : ∀ items, (∀ x ∈ items, P x) → P (.arr items))
    (obj : ∀ members, (∀ m ∈ members, P m.2) → P (.obj members)) (j : Json N S) : P j := by
  refine @Json.rec N S P (fun xs => ∀ x ∈ xs, P x) (fun ms => ∀ m ∈ ms, P m.2) (fun m => P m.2)
    null bool num str arr obj ?_ ?_ ?_ ?_ (fun _ _ h => h) j
  · intro x hx
    exact absurd hx not_mem_nil
  · intro x xs hx hxs y hy
    rcases mem_cons.mp hy with rfl | hy
    · exact hx
    · exact hxs y hy
  · intro m hm
    exact absurd hm not_mem_nil
  · intro m ms hm hms m' hm'
    rcases mem_cons.mp hm' with rfl | hm'
    · exact hm
    · exact hms m' hm'

/-! ## Decidable equality -/

section DecEq

variable [DecidableEq N] [DecidableEq S]

mutual

/-- Equality of trees is decidable; structural in the first tree, so that `decide` evaluates it. -/
def decEq : (a b : Json N S) → Decidable (a = b)
  | .null, .null => isTrue rfl
  | .bool a, .bool b => decidable_of_iff (a = b) (by simp)
  | .num a, .num b => decidable_of_iff (a = b) (by simp)
  | .str a, .str b => decidable_of_iff (a = b) (by simp)
  | .arr a, .arr b => @decidable_of_iff _ (a = b) (by simp) (decEqItems a b)
  | .obj a, .obj b => @decidable_of_iff _ (a = b) (by simp) (decEqMembers a b)
  | .null, .bool _ | .null, .num _ | .null, .str _ | .null, .arr _ | .null, .obj _
  | .bool _, .null | .bool _, .num _ | .bool _, .str _ | .bool _, .arr _ | .bool _, .obj _
  | .num _, .null | .num _, .bool _ | .num _, .str _ | .num _, .arr _ | .num _, .obj _
  | .str _, .null | .str _, .bool _ | .str _, .num _ | .str _, .arr _ | .str _, .obj _
  | .arr _, .null | .arr _, .bool _ | .arr _, .num _ | .arr _, .str _ | .arr _, .obj _
  | .obj _, .null | .obj _, .bool _ | .obj _, .num _ | .obj _, .str _ | .obj _, .arr _ =>
    isFalse (by simp)
  termination_by structural a => a

/-- Decidable equality of item lists. -/
def decEqItems : (a b : List (Json N S)) → Decidable (a = b)
  | [], [] => isTrue rfl
  | x :: xs, y :: ys =>
    @decidable_of_iff _ (x = y ∧ xs = ys) (by simp)
      (@instDecidableAnd _ _ (decEq x y) (decEqItems xs ys))
  | [], _ :: _ | _ :: _, [] => isFalse (by simp)
  termination_by structural a => a

/-- Decidable equality of member lists. -/
def decEqMembers : (a b : List (S × Json N S)) → Decidable (a = b)
  | [], [] => isTrue rfl
  | (k, x) :: xs, (l, y) :: ys =>
    @decidable_of_iff _ (k = l ∧ x = y ∧ xs = ys) (by simp [and_assoc])
      (@instDecidableAnd _ _ _ (@instDecidableAnd _ _ (decEq x y) (decEqMembers xs ys)))
  | [], _ :: _ | _ :: _, [] => isFalse (by simp)
  termination_by structural a => a

end

instance : DecidableEq (Json N S) := decEq

end DecEq

end Json

/-! ## Canonical objects -/

/-- Set `k` to `v` in an association list kept in increasing order of names. -/
def insertMember {α : Type} (k : String) (v : α) : List (String × α) → List (String × α)
  | [] => [(k, v)]
  | (k', v') :: ms =>
    if k < k' then (k, v) :: (k', v') :: ms
    else if k = k' then (k, v) :: ms
    else (k', v') :: insertMember k v ms

/-- What is found in a list of members, from the front. -/
theorem lookup_cons_ite {κ α : Type} [DecidableEq κ] (k k' : κ) (v : α) (ms : List (κ × α)) :
    ((k, v) :: ms).lookup k' = if k' = k then some v else ms.lookup k' := by
  by_cases h : k' = k
  · rw [h, lookup_cons_self, if_pos rfl]
  · rw [lookup_cons, beq_eq_false_iff_ne.mpr h, if_neg h]

/-- A member that is set further on is found past one of another name. -/
theorem lookup_set_cons {κ α : Type} [DecidableEq κ] {k k1 k' : κ} {v v1 : α}
    {ms ms' : List (κ × α)}
    (hk : k ≠ k1) (h : ms'.lookup k' = if k' = k then some v else ms.lookup k') :
    ((k1, v1) :: ms').lookup k' = if k' = k then some v else ((k1, v1) :: ms).lookup k' := by
  rw [lookup_cons_ite, lookup_cons_ite, h]
  by_cases h1 : k' = k1
  · rw [if_pos h1, if_pos h1, if_neg (h1 ▸ Ne.symm hk)]
  · rw [if_neg h1, if_neg h1]

/-- Inserting `k` changes what is found under `k` and nothing else. -/
theorem lookup_insertMember {α : Type} (k k' : String) (v : α) :
    ∀ ms : List (String × α),
      (insertMember k v ms).lookup k' = if k' = k then some v else ms.lookup k'
  | [] => lookup_cons_ite k k' v []
  | (k1, v1) :: ms => by
    rw [insertMember]
    split
    · exact lookup_cons_ite k k' v _
    · split
      · rename_i hk
        rw [lookup_cons_ite, lookup_cons_ite, ← hk]
        split <;> rfl
      · rename_i hk
        exact lookup_set_cons hk (lookup_insertMember k k' v ms)

section InsertEach

variable {ρ ε α : Type} (key : ρ → String) (value : ρ → Except ε α)

/-- Insert what each row holds under its key, in order; the first row that holds nothing stops it. -/
def insertEach (acc : List (String × α)) : List ρ → Except ε (List (String × α))
  | [] => .ok acc
  | r :: rows =>
    match value r with
    | .error e => .error e
    | .ok v => insertEach (insertMember (key r) v acc) rows

variable {key value}

/-- It gets to the end iff every row holds something. -/
theorem insertEach_isOk_iff : ∀ {rows : List ρ} {acc : List (String × α)},
    (∃ ms, insertEach key value acc rows = .ok ms) ↔ ∀ r ∈ rows, ∃ v, value r = .ok v
  | [], acc => ⟨fun _ r hr => absurd hr not_mem_nil, fun _ => ⟨acc, rfl⟩⟩
  | r :: rows, acc => by
    rw [insertEach, forall_mem_cons]
    rcases hr : value r with e | v
    · exact ⟨fun ⟨_, h⟩ => (nomatch h), fun ⟨⟨_, h⟩, _⟩ => (nomatch h)⟩
    · rw [← @insertEach_isOk_iff rows (insertMember (key r) v acc)]
      exact ⟨fun h => ⟨⟨v, rfl⟩, h⟩, fun h => h.2⟩

/-- It fails as one of the rows does. -/
theorem insertEach_error {e : ε} : ∀ {rows : List ρ} {acc : List (String × α)},
    insertEach key value acc rows = .error e → ∃ r ∈ rows, value r = .error e
  | [], _, h => by cases h
  | r :: rows, acc, h => by
    rw [insertEach] at h
    rcases hr : value r with e' | v
    · rw [hr] at h
      injection h with h
      exact ⟨r, mem_cons_self, by rw [hr, h]⟩
    · rw [hr] at h
      obtain ⟨r', hmem, hr'⟩ := insertEach_error h
      exact ⟨r', mem_cons_of_mem _ hmem, hr'⟩

/-- A key that no row has is found where it was. -/
theorem insertEach_other {k : String} : ∀ {rows : List ρ} {acc ms : List (String × α)},
    insertEach key value acc rows = .ok ms → (∀ r ∈ rows, key r ≠ k) → ms.lookup k = acc.lookup k
  | [], _, _, h, _ => by
    injection h with h
    rw [h]
  | r :: rows, _, _, h, hne => by
    obtain ⟨hr, hrows⟩ := forall_mem_cons.mp hne
    rw [insertEach] at h
    split at h
    · nomatch h
    · rw [insertEach_other h hrows, lookup_insertMember, if_neg (Ne.symm hr)]

/-- What a row holds whose key no other row has is found under its key. -/
theorem insertEach_lookup {r : ρ} : ∀ {rows : List ρ} {acc ms : List (String × α)},
    insertEach key value acc rows = .ok ms → r ∈ rows → (∀ a ∈ rows, key a = key r → a = r) →
    ∃ v, value r = .ok v ∧ ms.lookup (key r) = some v
  | [], _, _, _, hr, _ => absurd hr not_mem_nil
  | a :: rows, _, _, h, hr, hunique => by
    obtain ⟨-, hrows⟩ := forall_mem_cons.mp hunique
    rw [insertEach] at h
    split at h
    · nomatch h
    · rename_i v hv
      by_cases hr' : r ∈ rows
      · exact insertEach_lookup h hr' hrows
      · obtain rfl : r = a := (mem_cons.mp hr).resolve_right hr'
        refine ⟨v, hv, ?_⟩
        rw [insertEach_other h fun b hb hkey => hr' (hrows b hb hkey ▸ hb), lookup_insertMember,
          if_pos rfl]

end InsertEach

namespace Json

variable {N M S T : Type}

mutual

/-- The tree with each number replaced by a tree, and each string. -/
def replace (f : N → Json M T) (t : S → T) : Json N S → Json M T
  | .null => .null
  | .bool b => .bool b
  | .num n => f n
  | .str s => .str (t s)
  | .arr items => .arr (replaceItems f t items)
  | .obj members => .obj (replaceMembers f t members)
  termination_by structural j => j

/-- `replace` on the items of an array. -/
def replaceItems (f : N → Json M T) (t : S → T) : List (Json N S) → List (Json M T)
  | [] => []
  | x :: xs => replace f t x :: replaceItems f t xs
  termination_by structural js => js

/-- `replace` on the members of an object. -/
def replaceMembers (f : N → Json M T) (t : S → T) : List (S × Json N S) → List (T × Json M T)
  | [] => []
  | (k, v) :: ms => (t k, replace f t v) :: replaceMembers f t ms
  termination_by structural ms => ms

end

theorem replaceItems_eq_map (f : N → Json M T) (t : S → T) (items : List (Json N S)) :
    replaceItems f t items = items.map (replace f t) := by
  induction items with
  | nil => rfl
  | cons x xs ih => rw [replaceItems, ih, map_cons]

theorem replaceMembers_eq_map (f : N → Json M T) (t : S → T) (ms : List (S × Json N S)) :
    replaceMembers f t ms = ms.map fun m => (t m.1, replace f t m.2) := by
  induction ms with
  | nil => rfl
  | cons m ms ih => rw [replaceMembers, ih, map_cons]

/-- The tree with each number replaced. -/
abbrev mapNum (f : N → M) : Json N S → Json M S := replace (fun n => .num (f n)) id

/-- The tree as it is where strings are texts, -/
abbrev text [Strings S] : Json N S → Json N := replace .num Strings.text

/-- and a tree of texts where they are not. -/
abbrev spell [Strings S] : Json N → Json N S := replace .num Strings.ofText

theorem replace_eq_self {f : N → Json N S} {t : S → S} (hf : ∀ n, f n = .num n) (ht : ∀ s, t s = s)
    (a : Json N S) : replace f t a = a := by
  induction a with
  | null | bool _ => rfl
  | num n => exact hf n
  | str s => exact congrArg _ (ht s)
  | arr items ih => rw [replace, replaceItems_eq_map, map_congr_left ih, map_id']
  | obj members ih =>
    have hmember : ∀ m ∈ members, (t m.1, replace f t m.2) = m := fun m hm => by rw [ht, ih m hm]
    rw [replace, replaceMembers_eq_map, map_congr_left hmember, map_id']

/-- What is replaced comes back, if every number and every string does. -/
theorem replace_cancel {f : N → Json M T} {t : S → T} {f' : M → Json N S} {t' : T → S}
    (hf : ∀ n, replace f' t' (f n) = .num n) (ht : ∀ s, t' (t s) = s) (a : Json N S) :
    replace f' t' (replace f t a) = a := by
  induction a with
  | null | bool _ => rfl
  | num n => exact hf n
  | str s => exact congrArg _ (ht s)
  | arr items ih =>
    rw [replace, replaceItems_eq_map, replace, replaceItems_eq_map, map_map]
    exact congrArg _ ((map_congr_left ih).trans (map_id' _))
  | obj members ih =>
    rw [replace, replaceMembers_eq_map, replace, replaceMembers_eq_map, map_map]
    refine congrArg _ ((map_congr_left fun m hm => ?_).trans (map_id' _))
    exact Prod.ext (ht m.1) (ih m hm)

/-- A tree of texts is what it was, whatever its strings became. -/
theorem text_spell [Strings S] (a : Json N) : (spell a : Json N S).text = a :=
  replace_cancel (fun _ => rfl) Strings.text_ofText a

/-- Every string of the tree is a text. -/
def Textual [Strings S] (a : Json N S) : Prop := a.text.spell = a

instance [Strings S] [DecidableEq N] [DecidableEq S] (a : Json N S) : Decidable a.Textual :=
  inferInstanceAs (Decidable (_ = _))

theorem textual_str [Strings S] {s : S} :
    (Json.str s : Json N S).Textual ↔ Strings.ofText (Strings.text s) = s :=
  iff_of_eq (Json.str.injEq _ _)

theorem textual_arr [Strings S] {items : List (Json N S)} :
    (Json.arr items).Textual ↔ ∀ x ∈ items, x.Textual := by
  rw [Textual, text, replace, replaceItems_eq_map, spell, replace, replaceItems_eq_map, map_map,
    Json.arr.injEq]
  nth_rewrite 2 [← map_id' items]
  exact map_inj_left

theorem textual_obj [Strings S] {members : List (S × Json N S)} : (Json.obj members).Textual ↔
    ∀ m ∈ members, Strings.ofText (Strings.text m.1) = m.1 ∧ m.2.Textual := by
  rw [Textual, text, replace, replaceMembers_eq_map, spell, replace, replaceMembers_eq_map,
    map_map, Json.obj.injEq]
  nth_rewrite 2 [← map_id' members]
  exact map_inj_left.trans (forall₂_congr fun m _ => Prod.ext_iff)

theorem textual_spell [Strings S] (a : Json N) : (spell a : Json N S).Textual := by
  rw [Textual, text_spell]

theorem text_of_string (a : Json N) : a.text = a := replace_eq_self (fun _ => rfl) (fun _ => rfl) a

theorem textual_of_string (a : Json N) : a.Textual := by
  rw [Textual, text_of_string]
  exact text_of_string a

mutual

/-- The value a document denotes: numbers through `f`, and objects as maps (each name once, with
    the last value written for it, names in increasing order). -/
def norm (f : N → M) : Json N → Json M
  | .null => .null
  | .bool b => .bool b
  | .num n => .num (f n)
  | .str s => .str s
  | .arr items => .arr (normItems f items)
  | .obj members => .obj (normMembers f [] members)
  termination_by structural j => j

/-- `norm` on the items of an array. -/
def normItems (f : N → M) : List (Json N) → List (Json M)
  | [] => []
  | x :: xs => norm f x :: normItems f xs
  termination_by structural js => js

/-- `norm` on the members of an object, added to those read so far. -/
def normMembers (f : N → M) (acc : List (String × Json M)) :
    List (String × Json N) → List (String × Json M)
  | [] => acc
  | (k, v) :: ms => normMembers f (insertMember k (norm f v) acc) ms
  termination_by structural ms => ms

end

theorem normItems_eq_map (f : N → M) (items : List (Json N)) :
    normItems f items = items.map (norm f) := by
  induction items with
  | nil => rfl
  | cons x xs ih => rw [normItems, ih, map_cons]

/-- What the canonical object holds under `k`: the last value written for `k`, or what was there
    before. -/
theorem lookup_normMembers (f : N → M) (k : String) :
    ∀ (ms : List (String × Json N)) (acc : List (String × Json M)),
      (normMembers f acc ms).lookup k =
        ((ms.reverse.lookup k).map (norm f)).or (acc.lookup k)
  | [], acc => by simp [normMembers]
  | (k1, v1) :: ms, acc => by
    rw [normMembers, lookup_normMembers f k ms, lookup_insertMember, reverse_cons,
      lookup_append]
    rcases ms.reverse.lookup k with _ | v
    · by_cases h : k = k1
      · simp [h]
      · simp [lookup_cons, h, beq_eq_false_iff_ne.mpr h]
    · simp

/-! ## Documents that write every name once -/

/-- No object of the tree writes a member name twice. -/
inductive NoDup : Json N S → Prop
  | null : NoDup .null
  | bool (b : Bool) : NoDup (.bool b)
  | num (n : N) : NoDup (.num n)
  | str (s : S) : NoDup (.str s)
  | arr {items : List (Json N S)} : (∀ x ∈ items, NoDup x) → NoDup (.arr items)
  | obj {members : List (S × Json N S)} : (members.map Prod.fst).Nodup →
      (∀ m ∈ members, NoDup m.2) → NoDup (.obj members)

/-! ## What holds everywhere in a tree -/

/-- Every number has `P`, and every member of an object has `Q`. -/
inductive Everywhere (P : N → Prop) (Q : String → Json N → Prop) : Json N → Prop
  | null : Everywhere P Q .null
  | bool (b : Bool) : Everywhere P Q (.bool b)
  | num {n : N} : P n → Everywhere P Q (.num n)
  | str (s : String) : Everywhere P Q (.str s)
  | arr {items : List (Json N)} : (∀ x ∈ items, Everywhere P Q x) → Everywhere P Q (.arr items)
  | obj {members : List (String × Json N)} : (∀ m ∈ members, Q m.1 m.2) →
      (∀ m ∈ members, Everywhere P Q m.2) → Everywhere P Q (.obj members)

section Everywhere

variable {P : N → Prop} {Q : String → Json N → Prop}

theorem everywhere_arr {items : List (Json N)} :
    Everywhere P Q (.arr items) ↔ ∀ x ∈ items, Everywhere P Q x := by
  constructor
  · intro h
    cases h with
    | arr h => exact h
  · exact .arr

theorem everywhere_obj {members : List (String × Json N)} :
    Everywhere P Q (.obj members) ↔ ∀ m ∈ members, Q m.1 m.2 ∧ Everywhere P Q m.2 := by
  constructor
  · intro h
    cases h with
    | obj hQ h => exact fun m hm => ⟨hQ m hm, h m hm⟩
  · intro h
    exact .obj (fun m hm => (h m hm).1) fun m hm => (h m hm).2

end Everywhere

end Json

end JsonTree
