/-
  `toYAML`, the YAML printer of the command line (js/apps/cli/src/commands/snapshot.ts).

  Scalars and empty collections are one line without indentation.  An array is its items behind
  dashes, where the white space in front of an item is cut off; an object is its members in the order
  of their names, with a value that is an object in the sense of JavaScript on the lines below.
  NOTHING is asked of a key: it is written as it is, without quotes.

  The text is a list of lines, and the lines are easier to reason about:
  * **`printed_solid`** — every line starts with something and has no line break in it;
  * **`toYAML_eq`** — the text is these lines, joined.
-/
import FalseFlag.Lib.EcmaText
import FalseFlag.Lib.YamlBlock

namespace FalseFlag.Cli

open List Binary Ecma JsonTree Json Yaml

/-! ## toYAML -/

/-- `"  ".repeat(indent)`. -/
def pad (indent : ℕ) : List Char := List.replicate (2 * indent) ' '

/-- `join("\n")`. -/
def joinLines (texts : List (List Char)) : List Char := ['\n'].intercalate texts

/-- `typeof v === "object" && v !== null`. -/
def isObject : Json Number → Bool
  | .arr _ | .obj _ => true
  | _ => false

/-- One item of an array, from the text of its value. -/
def itemText (indent : ℕ) (text : List Char) : List Char :=
  pad indent ++ ('-' :: ' ' :: trimStart text)

/-- One member of an object, from the text of its value. -/
def memberText (indent : ℕ) (k : String) (nested : Bool) (text : List Char) : List Char :=
  pad indent ++ (k.toList ++ (':' :: (if nested then '\n' else ' ') :: text))

section Printed

variable [NumberText]

/-- `String(value)` of a number. -/
def numberText : Number → List Char
  | .nan => "NaN".toList
  | .infinity false => "Infinity".toList
  | .infinity true => "-Infinity".toList
  | .finite q => numberToString q

mutual

/-- `toYAML(value, indent)`.  The keys are sorted; here the members are, with their texts. -/
def toYAML (indent : ℕ) : Json Number → List Char
  | .null => "null".toList
  | .str s => stringText s
  | .num n => numberText n
  | .bool true => "true".toList
  | .bool false => "false".toList
  | .arr items =>
    if items.length = 0 then "[]".toList else joinLines (itemTexts indent items)
  | .obj members =>
    if members.length = 0 then "\x7b\x7d".toList
    else joinLines ((sortNames (memberTexts indent members)).map Prod.snd)
  termination_by structural v => v

/-- The items of an array. -/
def itemTexts (indent : ℕ) : List (Json Number) → List (List Char)
  | [] => []
  | x :: xs => itemText indent (toYAML (indent + 1) x) :: itemTexts indent xs
  termination_by structural xs => xs

/-- The members of an object. -/
def memberTexts (indent : ℕ) : List (String × Json Number) → List (String × List Char)
  | [] => []
  | (k, x) :: ms =>
    (k, memberText indent k (isObject x) (toYAML (indent + 1) x)) :: memberTexts indent ms
  termination_by structural ms => ms

end

theorem itemTexts_eq (indent : ℕ) (xs : List (Json Number)) :
    itemTexts indent xs = xs.map fun x => itemText indent (toYAML (indent + 1) x) := by
  induction xs with
  | nil => rfl
  | cons x xs ih => rw [itemTexts, ih, map_cons]

theorem memberTexts_eq (indent : ℕ) (ms : List (String × Json Number)) :
    memberTexts indent ms = ms.map fun m =>
      (m.1, memberText indent m.1 (isObject m.2) (toYAML (indent + 1) m.2)) := by
  induction ms with
  | nil => rfl
  | cons m ms ih => rw [memberTexts, ih, map_cons]

theorem toYAML_arr (indent : ℕ) (x : Json Number) (xs : List (Json Number)) :
    toYAML indent (.arr (x :: xs)) =
      joinLines ((x :: xs).map fun x => itemText indent (toYAML (indent + 1) x)) := by
  rw [toYAML, if_neg (by simp), itemTexts_eq]

theorem toYAML_obj (indent : ℕ) (m : String × Json Number) (ms : List (String × Json Number)) :
    toYAML indent (.obj (m :: ms)) =
      joinLines ((sortNames (m :: ms)).map fun m =>
        memberText indent m.1 (isObject m.2) (toYAML (indent + 1) m.2)) := by
  rw [toYAML, if_neg (by simp), memberTexts_eq,
    map_sortNames (fun k x => memberText indent k (isObject x) (toYAML (indent + 1) x)),
    map_map]
  rfl

/-! ## The lines that are printed -/

/-- The first line of an item has the dash in front. -/
def dashed (col : ℕ) : List Line → List Line
  | [] => []
  | l :: ls => ⟨col, '-' :: ' ' :: l.text⟩ :: ls

/-- The lines of a member, from those of its value. -/
def keyed (col : ℕ) (k : String) (nested : Bool) (ls : List Line) : List Line :=
  if nested then ⟨col, k.toList ++ [':']⟩ :: ls
  else
    match ls with
    | [] => []
    | l :: ls => ⟨col, k.toList ++ (':' :: ' ' :: l.text)⟩ :: ls

mutual

/-- The lines of `toYAML`, with what is left of the indentation: a scalar or an empty collection has
    none of its own. -/
def printed (indent : ℕ) : Json Number → List Line
  | .arr (x :: xs) => (printedItems indent (x :: xs)).flatten
  | .obj (m :: ms) => ((sortNames (printedMembers indent (m :: ms))).map Prod.snd).flatten
  | v => [⟨0, toYAML indent v⟩]
  termination_by structural v => v

/-- The lines of the items of an array. -/
def printedItems (indent : ℕ) : List (Json Number) → List (List Line)
  | [] => []
  | x :: xs => dashed (2 * indent) (printed (indent + 1) x) :: printedItems indent xs
  termination_by structural xs => xs

/-- The lines of the members of an object. -/
def printedMembers (indent : ℕ) : List (String × Json Number) → List (String × List Line)
  | [] => []
  | (k, x) :: ms =>
    (k, keyed (2 * indent) k (isObject x) (printed (indent + 1) x)) :: printedMembers indent ms
  termination_by structural ms => ms

end

theorem printedItems_eq (indent : ℕ) (xs : List (Json Number)) :
    printedItems indent xs = xs.map fun x => dashed (2 * indent) (printed (indent + 1) x) := by
  induction xs with
  | nil => rfl
  | cons x xs ih => rw [printedItems, ih, map_cons]

theorem printedMembers_eq (indent : ℕ) (ms : List (String × Json Number)) :
    printedMembers indent ms = ms.map fun m =>
      (m.1, keyed (2 * indent) m.1 (isObject m.2) (printed (indent + 1) m.2)) := by
  induction ms with
  | nil => rfl
  | cons m ms ih => rw [printedMembers, ih, map_cons]

/-- The lines of one item. -/
def itemLines (indent : ℕ) (x : Json Number) : List Line :=
  dashed (2 * indent) (printed (indent + 1) x)

/-- The lines of one member. -/
def memberLines (indent : ℕ) (m : String × Json Number) : List Line :=
  keyed (2 * indent) m.1 (isObject m.2) (printed (indent + 1) m.2)

theorem printed_arr (indent : ℕ) (x : Json Number) (xs : List (Json Number)) :
    printed indent (.arr (x :: xs)) = (x :: xs).flatMap (itemLines indent) := by
  rw [printed, printedItems_eq]
  rfl

theorem printed_obj (indent : ℕ) (m : String × Json Number) (ms : List (String × Json Number)) :
    printed indent (.obj (m :: ms)) = (sortNames (m :: ms)).flatMap (memberLines indent) := by
  rw [printed, printedMembers_eq,
    map_sortNames (fun k x => keyed (2 * indent) k (isObject x) (printed (indent + 1) x)),
    map_map]
  rfl

/-- A scalar or an empty collection: what is printed on one line. -/
def IsLeaf : Json Number → Prop
  | .arr (_ :: _) | .obj (_ :: _) => False
  | _ => True

variable {v : Json Number}

/-- A leaf is one line. -/
theorem printed_leaf (h : IsLeaf v) (indent : ℕ) :
    printed indent v = [⟨0, toYAML indent v⟩] := by
  cases v with
  | arr items =>
    cases items with
    | nil => rfl
    | cons x xs => exact h.elim
  | obj members =>
    cases members with
    | nil => rfl
    | cons m ms => exact h.elim
  | _ => rfl

end Printed

variable {v : Json Number}

/-- Induction as `toYAML` goes: leaves, arrays and objects that hold something. -/
theorem induct_printed {P : Json Number → Prop} (leaf : ∀ v, IsLeaf v → P v)
    (arr : ∀ x xs, (∀ y ∈ x :: xs, P y) → P (.arr (x :: xs)))
    (obj : ∀ m ms, (∀ m' ∈ m :: ms, P m'.2) → P (.obj (m :: ms))) (v : Json Number) : P v := by
  induction v with
  | null => exact leaf _ trivial
  | bool b => exact leaf _ trivial
  | num q => exact leaf _ trivial
  | str s => exact leaf _ trivial
  | arr items ih =>
    cases items with
    | nil => exact leaf _ trivial
    | cons x xs => exact arr x xs ih
  | obj members ih =>
    cases members with
    | nil => exact leaf _ trivial
    | cons m ms => exact obj m ms ih

/-- On a leaf, nothing is asked of a key. -/
theorem everywhere_leaf {P : Number → Prop} {Q : String → Json Number → Prop}
    (h : IsLeaf v) (hP : ∀ n, v = .num n → P n) : Everywhere P Q v := by
  cases v with
  | null => exact .null
  | bool b => exact .bool b
  | num n => exact .num (hP n rfl)
  | str s => exact .str s
  | arr items =>
    cases items with
    | nil => exact .arr fun _ h => by cases h
    | cons x xs => exact h.elim
  | obj members =>
    cases members with
    | nil => exact .obj (fun _ h => by cases h) fun _ h => by cases h
    | cons m ms => exact h.elim

/-! ## Keys and values that can be told from the text -/

/-- A key that reads back where `toYAML` writes it: without quotes, in column 0 of a document or at
    the start of an item of an array, where the white space in front is cut off. -/
structure ReadableKey (indent : ℕ) (first : Bool) (k : String) : Prop where
  plain : PlainKey k.toList
  noMarker : indent = 0 → first = false → isMarker (k.toList ++ [':']) = false
  noSpace : first = true → ∀ c ∈ k.toList.head?, isWhiteSpace c = false

/-- The name comes first among those of an object. -/
def isFirst (k : String) (members : List (String × Json Number)) : Bool :=
  (sortNames members).head?.any (·.1 == k)

/-- **Every key, where it is printed**: `P` holds for each member of an object, with how far it is
    indented and whether it starts an item of an array.  The value is printed at `indent`, as an
    item or not. -/
inductive Keys (P : ℕ → Bool → String × Json Number → Prop) : ℕ → Bool → Json Number → Prop
  | leaf {indent : ℕ} {item : Bool} {v : Json Number} : IsLeaf v → Keys P indent item v
  | arr {indent : ℕ} {item : Bool} {items : List (Json Number)} :
      (∀ x ∈ items, Keys P (indent + 1) true x) → Keys P indent item (.arr items)
  | obj {indent : ℕ} {item : Bool} {members : List (String × Json Number)} :
      (∀ m ∈ members, P indent (item && isFirst m.1 members) m) →
      (∀ m ∈ members, Keys P (indent + 1) false m.2) → Keys P indent item (.obj members)

section Keys

variable {P : ℕ → Bool → String × Json Number → Prop} {indent : ℕ} {item : Bool}

theorem Keys.items {x : Json Number} {xs : List (Json Number)}
    (h : Keys P indent item (.arr (x :: xs))) : ∀ y ∈ x :: xs, Keys P (indent + 1) true y := by
  cases h with
  | leaf h => exact h.elim
  | arr h => exact h

theorem Keys.members {m : String × Json Number} {ms : List (String × Json Number)}
    (h : Keys P indent item (.obj (m :: ms))) : ∀ m' ∈ m :: ms,
      P indent (item && isFirst m'.1 (m :: ms)) m' ∧ Keys P (indent + 1) false m'.2 := by
  cases h with
  | leaf h => exact h.elim
  | obj hP h => exact fun m' hm' => ⟨hP m' hm', h m' hm'⟩

/-- Weaker conditions on keys. -/
theorem Keys.imp {Q : ℕ → Bool → String × Json Number → Prop}
    (hPQ : ∀ indent first m, P indent first m → Q indent first m) {v : Json Number}
    (h : Keys P indent item v) : Keys Q indent item v := by
  induction h with
  | leaf h => exact .leaf h
  | arr _ ih => exact .arr ih
  | obj hP _ ih => exact .obj (fun m hm => hPQ _ _ m (hP m hm)) ih

end Keys

/-- All keys can be read back, where they are printed. -/
abbrev ReadableKeys : ℕ → Bool → Json Number → Prop :=
  Keys fun indent first m => ReadableKey indent first m.1

/-- A finite number of JavaScript. -/
def Float64 (q : ℚ) : Prop := binary64.round q = q ∧ |q| < 2 ^ 1024

/-- A number that comes of JSON: `1e400` is `Infinity`. -/
def IsNumber : Number → Prop
  | .nan => False
  | .infinity _ => True
  | .finite q => Float64 q

/-- The numbers are those of JavaScript, and the keys are plain scalars. -/
abbrev Readable : Json Number → Prop := Everywhere IsNumber fun k _ => PlainKey k.toList

variable {indent : ℕ}

/-- Readable keys are plain. -/
theorem readable_of (hnum : Everywhere IsNumber (fun _ _ => True) v)
    {item : Bool} (hkeys : ReadableKeys indent item v) : Readable v := by
  induction v using induct_printed generalizing indent item with
  | leaf v h =>
    refine everywhere_leaf h fun n hn => ?_
    subst hn
    cases hnum with
    | num hn => exact hn
  | arr x xs ih => exact .arr fun y hy => ih y hy (everywhere_arr.mp hnum y hy) (hkeys.items y hy)
  | obj m ms ih =>
    exact .obj (fun m' hm' => (hkeys.members m' hm').1.plain) fun m' hm' =>
      ih m' hm' (everywhere_obj.mp hnum m' hm').2 (hkeys.members m' hm').2

/-- A text that is one line with something on it. -/
structure Firm (t : List Char) : Prop where
  start : ∃ c cs, t = c :: cs ∧ isWhiteSpace c = false ∧ c ≠ '#'
  noBreak : ∀ c ∈ t, c ≠ '\n' ∧ c ≠ '\r'
  noMarker : isMarker t = false

theorem isWhite_of_not {c : Char} (h : isWhiteSpace c = false) : isWhite c = false := by
  by_contra hwhite
  rw [Bool.not_eq_false, isWhite, Bool.or_eq_true, beq_iff_eq, beq_iff_eq] at hwhite
  rcases hwhite with rfl | rfl
  · exact absurd h (by decide)
  · exact absurd h (by decide)

theorem Firm.solid {t : List Char} (h : Firm t) (col : ℕ) : (Line.mk col t).Solid := by
  obtain ⟨c, cs, htext, hspace, hhash⟩ := h.start
  exact ⟨⟨c, cs, htext, isWhite_of_not hspace, hhash⟩, h.noBreak⟩

/-- A line stays solid behind a dash, -/
theorem solid_dash {l : Line} (h : l.Solid) (col : ℕ) :
    (Line.mk col ('-' :: ' ' :: l.text)).Solid := by
  refine ⟨⟨'-', _, rfl, by decide, by decide⟩, ?_⟩
  intro c hc
  rcases mem_cons.mp hc with rfl | hc
  · decide
  · rcases mem_cons.mp hc with rfl | hc
    · decide
    · exact h.noBreak c hc

/-- and a key makes one. -/
theorem solid_key {k : String} (hk : PlainKey k.toList) {r : List Char}
    (hr : ∀ c ∈ r, c ≠ '\n' ∧ c ≠ '\r') (col : ℕ) :
    (Line.mk col (k.toList ++ ':' :: r)).Solid := by
  obtain ⟨c, cs, hkc, hstart⟩ := hk.start
  rw [plainStart, Bool.and_eq_true] at hstart
  refine ⟨⟨c, cs ++ ':' :: r, by rw [hkc, cons_append], ?_, ?_⟩, ?_⟩
  · exact isWhite_of_isNs hstart.1
  · rintro rfl
    exact absurd hstart.2 (by simp; decide)
  · intro d hd
    rcases mem_append.mp hd with hd | hd
    · have hchar := hk.chars d hd
      constructor
      · rintro rfl
        exact absurd hchar (by decide)
      · rintro rfl
        exact absurd hchar (by decide)
    · rcases mem_cons.mp hd with rfl | hd
      · decide
      · exact hr d hd

/-! ### Leaves -/

theorem backslash_noBreak (c : Char) : ∀ d ∈ backslash isControl c, d ≠ '\n' ∧ d ≠ '\r' := by
  have hhex : ∀ n < 16, hexDigit n ≠ '\n' ∧ hexDigit n ≠ '\r' := by decide
  have hslash : '\\' ≠ '\n' ∧ '\\' ≠ '\r' := by decide
  unfold backslash
  split
  · rename_i letter hshort
    have hletter : letter ≠ '\n' ∧ letter ≠ '\r' := by
      unfold shortEscape at hshort
      repeat' split at hshort
      all_goals first | (injection hshort with hl; subst hl; decide) | cases hshort
    intro d hd
    rcases mem_cons.mp hd with rfl | hd
    · exact hslash
    · rw [mem_singleton.mp hd]
      exact hletter
  · rename_i hshort
    split
    · rename_i hcontrol
      have hlt : c.toNat < 32 := of_decide_eq_true hcontrol
      refine forall_mem_cons.mpr ⟨hslash, forall_mem_cons.mpr ⟨by decide, ?_⟩⟩
      refine forall_mem_cons.mpr ⟨hhex _ (by omega), ?_⟩
      refine forall_mem_cons.mpr ⟨hhex _ (by omega), ?_⟩
      refine forall_mem_cons.mpr ⟨hhex _ (by omega), ?_⟩
      exact forall_mem_cons.mpr ⟨hhex _ (by omega), fun _ h => by cases h⟩
    · intro d hd
      rw [mem_singleton.mp hd]
      constructor
      · rintro rfl
        exact absurd hshort (by decide)
      · rintro rfl
        exact absurd hshort (by decide)

/-- Strings are firm, -/
theorem firm_stringText (s : String) : Firm (stringText s) := by
  refine ⟨⟨'"', _, rfl, by decide, by decide⟩, ?_, rfl⟩
  intro d hd
  rcases mem_cons.mp hd with rfl | hd
  · decide
  · rcases mem_append.mp hd with hd | hd
    · obtain ⟨c, -, hc⟩ := mem_flatMap.mp hd
      exact backslash_noBreak c d hc
    · rw [mem_singleton.mp hd]
      decide

theorem isWhiteSpace_ascii {c : Char} (hlow : 0x20 < c.toNat) (hhigh : c.toNat < 0x80) :
    isWhiteSpace c = false := by
  simp [isWhiteSpace]
  omega

/-- The word or the brackets of a leaf that is neither a string nor a finite number. -/
theorem firm_word {t : List Char} (h : t ∈ ["null".toList, "true".toList, "false".toList,
    "[]".toList, "\x7b\x7d".toList, "NaN".toList, "Infinity".toList, "-Infinity".toList]) :
    Firm t := by
  have hbreak : ∀ {cs : List Char}, (cs.all fun c => c != '\n' && c != '\r') = true →
      ∀ c ∈ cs, c ≠ '\n' ∧ c ≠ '\r' := by
    intro cs hall c hc
    have hne := all_eq_true.mp hall c hc
    rwa [Bool.and_eq_true, bne_iff_ne, bne_iff_ne] at hne
  simp only [mem_cons, not_mem_nil, or_false] at h
  rcases h with rfl | rfl | rfl | rfl | rfl | rfl | rfl | rfl
  all_goals exact ⟨⟨_, _, rfl, by decide, by decide⟩, hbreak (by decide), by decide⟩

/-- A value that is no object is printed on one line. -/
theorem leaf_of_not_object (h : isObject v = false) : IsLeaf v := by
  cases v with
  | arr items => cases h
  | obj members => cases h
  | _ => trivial

theorem mem_sortNames {α : Type} {m : String × α} {ms : List (String × α)} :
    m ∈ sortNames ms ↔ m ∈ ms := (perm_sortNames ms).mem_iff

theorem sortNames_ne_nil {α : Type} (m : String × α) (ms : List (String × α)) :
    sortNames (m :: ms) ≠ [] := by
  intro h
  have hmem : m ∈ sortNames (m :: ms) := mem_sortNames.mpr (mem_cons_self ..)
  rw [h] at hmem
  cases hmem

/-- White space in front of something else goes. -/
theorem trimStart_textOf {c : Char} (h : isWhiteSpace c = false) (col : ℕ) (cs : List Char)
    (ls : List Line) :
    trimStart (textOf (⟨col, c :: cs⟩ :: ls)) = textOf (⟨0, c :: cs⟩ :: ls) := by
  have hl : textOf (⟨col, c :: cs⟩ :: ls) = List.replicate col ' ' ++ textOf (⟨0, c :: cs⟩ :: ls) :=
    textOf_head col [] (c :: cs) ls
  have hc : textOf (⟨0, c :: cs⟩ :: ls) = c :: textOf (⟨0, cs⟩ :: ls) := textOf_head 0 [c] cs ls
  rw [hl, trimStart_replicate, hc]
  exact dropWhile_cons_of_neg (by rw [h]; exact Bool.false_ne_true)

variable [NumberText]

theorem firm_numberToString (q : ℚ) : Firm (numberToString q) := by
  have hrange := fun c hc => numChar_range (numberToString_chars q c hc)
  obtain ⟨c, cs, htext, hhead⟩ := numberToString_head q
  have hc : c ∈ numberToString q := by
    rw [htext]
    exact mem_cons_self ..
  obtain ⟨hlow, hhigh, -⟩ := hrange c hc
  refine ⟨⟨c, cs, htext, isWhiteSpace_ascii (by omega) (by omega), ?_⟩, ?_, ?_⟩
  · exact ne_of_range ⟨hlow, hhigh⟩ (by decide)
  · intro d hd
    obtain ⟨hlow, hhigh, -⟩ := hrange d hd
    exact ⟨ne_of_range ⟨hlow, hhigh⟩ (by decide), ne_of_range ⟨hlow, hhigh⟩ (by decide)⟩
  · -- a marker starts with two dashes or a dot
    rw [htext]
    rcases hhead with hdigit | ⟨rfl, d, ds, rfl, hdigit⟩
    · have hdash : c ≠ '-' := by
        rintro rfl
        cases hdigit
      have hdot : c ≠ '.' := by
        rintro rfl
        cases hdigit
      simp [isMarker, hdash, hdot]
    · have hdash : d ≠ '-' := by
        rintro rfl
        cases hdigit
      simp [isMarker, hdash]

/-- numbers are, -/
theorem firm_numberText (n : Number) : Firm (numberText n) := by
  cases n with
  | nan => exact firm_word (t := "NaN".toList) (by decide)
  | infinity negative =>
    cases negative with
    | false => exact firm_word (t := "Infinity".toList) (by decide)
    | true => exact firm_word (t := "-Infinity".toList) (by decide)
  | finite q => exact firm_numberToString q

/-- and so is every leaf. -/
theorem firm_leaf (h : IsLeaf v) (indent : ℕ) : Firm (toYAML indent v) := by
  cases v with
  | null => exact firm_word (t := "null".toList) (by decide)
  | bool b =>
    cases b with
    | false => exact firm_word (t := "false".toList) (by decide)
    | true => exact firm_word (t := "true".toList) (by decide)
  | num n => exact firm_numberText n
  | str s => exact firm_stringText s
  | arr items =>
    cases items with
    | nil => exact firm_word (t := "[]".toList) (by decide)
    | cons x xs => exact h.elim
  | obj members =>
    cases members with
    | nil => exact firm_word (t := "\x7b\x7d".toList) (by decide)
    | cons m ms => exact h.elim

/-! ### All lines -/

/-- The lines of an item: the dash is in front of the first line of the value. -/
theorem itemLines_cons (indent : ℕ) {x : Json Number} (hne : printed (indent + 1) x ≠ []) :
    ∃ l rest, printed (indent + 1) x = l :: rest ∧
      itemLines indent x = ⟨2 * indent, '-' :: ' ' :: l.text⟩ :: rest := by
  obtain ⟨l, rest, hls⟩ := exists_cons_of_ne_nil hne
  refine ⟨l, rest, hls, ?_⟩
  rw [itemLines, hls]
  rfl

/-- The lines of a member: the key alone, or the key and a scalar. -/
theorem memberLines_cases (indent : ℕ) (m : String × Json Number) :
    (isObject m.2 = true ∧ memberLines indent m =
      ⟨2 * indent, m.1.toList ++ [':']⟩ :: printed (indent + 1) m.2) ∨
    (isObject m.2 = false ∧ memberLines indent m =
      [⟨2 * indent, m.1.toList ++ (':' :: ' ' :: toYAML (indent + 1) m.2)⟩]) := by
  rcases hobj : isObject m.2 with _ | _
  · right
    rw [memberLines, hobj, printed_leaf (leaf_of_not_object hobj)]
    exact ⟨rfl, rfl⟩
  · left
    rw [memberLines, hobj]
    exact ⟨rfl, rfl⟩

theorem memberLines_cons (indent : ℕ) (m : String × Json Number) :
    ∃ l rest, memberLines indent m = l :: rest ∧ l.col = 2 * indent := by
  rcases memberLines_cases indent m with ⟨-, h⟩ | ⟨-, h⟩
  · exact ⟨_, _, h, rfl⟩
  · exact ⟨_, _, h, rfl⟩

/-- There is always a line. -/
theorem printed_ne_nil (v : Json Number) : ∀ indent, printed indent v ≠ [] := by
  induction v using induct_printed with
  | leaf v h =>
    intro indent
    rw [printed_leaf h]
    exact cons_ne_nil _ _
  | arr x xs ih =>
    intro indent
    obtain ⟨l, rest, -, hlines⟩ := itemLines_cons indent (ih x (mem_cons_self ..) (indent + 1))
    rw [printed_arr, flatMap_cons, hlines]
    exact cons_ne_nil _ _
  | obj m ms ih =>
    intro indent
    obtain ⟨m', rest, hsorted⟩ := exists_cons_of_ne_nil (sortNames_ne_nil m ms)
    obtain ⟨l, rest', hlines, -⟩ := memberLines_cons indent m'
    rw [printed_obj, hsorted, flatMap_cons, hlines]
    exact cons_ne_nil _ _

/-- The lines of an item: the dash is in front of the first line of the value. -/
theorem itemLines_eq (indent : ℕ) (x : Json Number) :
    ∃ l rest, printed (indent + 1) x = l :: rest ∧
      itemLines indent x = ⟨2 * indent, '-' :: ' ' :: l.text⟩ :: rest :=
  itemLines_cons indent (printed_ne_nil x (indent + 1))

/-- The lines of items are solid, -/
theorem itemLines_solid {x : Json Number}
    (h : ∀ l ∈ printed (indent + 1) x, l.Solid) : ∀ l ∈ itemLines indent x, l.Solid := by
  obtain ⟨l, rest, hls, hlines⟩ := itemLines_eq indent x
  rw [hls] at h
  obtain ⟨hl, hrest⟩ := forall_mem_cons.mp h
  rw [hlines]
  exact forall_mem_cons.mpr ⟨solid_dash hl _, hrest⟩

/-- and those of members. -/
theorem memberLines_solid {m : String × Json Number} (hkey : PlainKey m.1.toList)
    (h : ∀ l ∈ printed (indent + 1) m.2, l.Solid) : ∀ l ∈ memberLines indent m, l.Solid := by
  rcases memberLines_cases indent m with ⟨-, hlines⟩ | ⟨hobj, hlines⟩
  · rw [hlines]
    exact forall_mem_cons.mpr ⟨solid_key hkey (fun _ hnil => by cases hnil) _, h⟩
  · rw [hlines]
    refine forall_mem_singleton.mpr (solid_key hkey ?_ _)
    intro c hc
    rcases mem_cons.mp hc with rfl | hc
    · decide
    · exact (firm_leaf (leaf_of_not_object hobj) (indent + 1)).noBreak c hc

/-- **All that is printed is solid.** -/
theorem printed_solid (v : Json Number) (hv : Readable v) : ∀ indent,
    ∀ l ∈ printed indent v, l.Solid := by
  induction v using induct_printed with
  | leaf v h =>
    intro indent
    rw [printed_leaf h]
    exact forall_mem_singleton.mpr ((firm_leaf h indent).solid 0)
  | arr x xs ih =>
    intro indent l hl
    rw [printed_arr] at hl
    obtain ⟨y, hy, hl⟩ := mem_flatMap.mp hl
    exact itemLines_solid (ih y hy (everywhere_arr.mp hv y hy) (indent + 1)) l hl
  | obj m ms ih =>
    intro indent l hl
    rw [printed_obj] at hl
    obtain ⟨m', hm', hl⟩ := mem_flatMap.mp hl
    have hmem := mem_sortNames.mp hm'
    obtain ⟨hkey, hvalue⟩ := everywhere_obj.mp hv m' hmem
    exact memberLines_solid hkey (ih m' hmem hvalue (indent + 1)) l hl

/-- **No line is a document marker**: a key in column 0 is none. -/
theorem printed_unmarked (v : Json Number) : ∀ {indent item}, ReadableKeys indent item v →
    (indent = 0 → item = false) → ∀ l ∈ printed indent v, l.col = 0 → isMarker l.text = false := by
  induction v using induct_printed with
  | leaf v h =>
    intro indent item _ _
    rw [printed_leaf h]
    exact forall_mem_singleton.mpr fun _ => (firm_leaf h indent).noMarker
  | arr x xs ih =>
    intro indent item hkeys _ l hl
    rw [printed_arr] at hl
    obtain ⟨y, hy, hl⟩ := mem_flatMap.mp hl
    obtain ⟨l', rest, hls, hlines⟩ := itemLines_eq indent y
    rw [hlines] at hl
    rcases mem_cons.mp hl with rfl | hl
    · exact fun _ => rfl
    · exact ih y hy (hkeys.items y hy) (fun h => by omega) l
        (by rw [hls]; exact mem_cons_of_mem _ hl)
  | obj m ms ih =>
    intro indent item hkeys hitem l hl hcol
    rw [printed_obj] at hl
    obtain ⟨m', hm', hl⟩ := mem_flatMap.mp hl
    have hmem := mem_sortNames.mp hm'
    obtain ⟨hkey, hvalue⟩ := hkeys.members m' hmem
    have hmarker : 2 * indent = 0 → ∀ r, isMarker (m'.1.toList ++ ':' :: r) = false := by
      intro hzero r
      have hindent : indent = 0 := by omega
      rw [isMarker_key]
      exact hkey.noMarker hindent (by rw [hitem hindent]; rfl)
    rcases memberLines_cases indent m' with ⟨-, hlines⟩ | ⟨-, hlines⟩
    · rw [hlines] at hl
      rcases mem_cons.mp hl with rfl | hl
      · exact hmarker hcol []
      · exact ih m' hmem hvalue (fun h => by omega) l hl hcol
    · rw [hlines] at hl
      rw [mem_singleton.mp hl] at hcol ⊢
      exact hmarker hcol _

/-- **An item starts with no white space**: none of a key is cut off. -/
theorem printed_start (hkeys : ReadableKeys indent true v) :
    ∃ c cs ls col, printed indent v = ⟨col, c :: cs⟩ :: ls ∧ isWhiteSpace c = false := by
  induction v using induct_printed with
  | leaf v h =>
    obtain ⟨c, cs, htext, hspace, -⟩ := (firm_leaf h indent).start
    rw [printed_leaf h, htext]
    exact ⟨c, cs, [], 0, rfl, hspace⟩
  | arr x xs _ =>
    obtain ⟨l, rest, -, hlines⟩ := itemLines_eq indent x
    rw [printed_arr, flatMap_cons, hlines]
    exact ⟨'-', _, _, _, rfl, by decide⟩
  | obj m ms _ =>
    obtain ⟨m', rest, hsorted⟩ := exists_cons_of_ne_nil (sortNames_ne_nil m ms)
    have hmem : m' ∈ m :: ms := mem_sortNames.mp (by rw [hsorted]; exact mem_cons_self ..)
    have hfirst : isFirst m'.1 (m :: ms) = true := by
      rw [isFirst, hsorted]
      exact beq_self_eq_true m'.1
    have hkey := (hkeys.members m' hmem).1
    obtain ⟨c, cs, hkc, -⟩ := hkey.plain.start
    have hspace := hkey.noSpace hfirst c (by rw [hkc]; rfl)
    rw [printed_obj, hsorted, flatMap_cons]
    rcases memberLines_cases indent m' with ⟨-, hlines⟩ | ⟨-, hlines⟩
    · rw [hlines, hkc]
      exact ⟨c, _, _, _, rfl, hspace⟩
    · rw [hlines, hkc]
      exact ⟨c, _, _, _, rfl, hspace⟩

/-! ## The text -/

/-- **The text is that of the lines.** -/
theorem toYAML_eq (v : Json Number) : ∀ {indent item}, ReadableKeys indent item v →
    toYAML indent v = textOf (printed indent v) := by
  induction v using induct_printed with
  | leaf v h =>
    intro indent item _
    rw [printed_leaf h, textOf, map_singleton, intercalate_singleton]
    rfl
  | arr x xs ih =>
    intro indent item hkeys
    rw [toYAML_arr, printed_arr]
    apply textOf_flatMap
    intro y hy
    have hy' := hkeys.items y hy
    obtain ⟨l, rest, hls, hlines⟩ := itemLines_eq indent y
    obtain ⟨c, cs, ls, col, hstart, hspace⟩ := printed_start hy'
    rw [hls] at hstart
    injection hstart with hl hrest
    have hdash : textOf (⟨2 * indent, '-' :: ' ' :: l.text⟩ :: rest) =
        pad indent ++ ('-' :: ' ' :: textOf (⟨0, l.text⟩ :: rest)) :=
      textOf_head (2 * indent) ['-', ' '] l.text rest
    rw [hlines]
    refine ⟨cons_ne_nil _ _, ?_⟩
    rw [itemText, ih y hy hy', hls, hdash, hl, trimStart_textOf hspace]
  | obj m ms ih =>
    intro indent item hkeys
    rw [toYAML_obj, printed_obj]
    apply textOf_flatMap
    intro m' hm'
    have hmem := mem_sortNames.mp hm'
    rcases memberLines_cases indent m' with ⟨hobj, h⟩ | ⟨hobj, h⟩
    · rw [h, hobj]
      refine ⟨cons_ne_nil _ _, ?_⟩
      rw [textOf_cons _ (printed_ne_nil m'.2 _), memberText, ih m' hmem (hkeys.members m' hmem).2,
        if_pos rfl]
      show _ = pad indent ++ (m'.1.toList ++ [':']) ++ '\n' :: _
      simp only [append_assoc, cons_append, nil_append]
    · rw [h, hobj]
      refine ⟨cons_ne_nil _ _, ?_⟩
      rw [textOf, map_singleton, intercalate_singleton, memberText,
        if_neg Bool.false_ne_true]
      rfl

end FalseFlag.Cli
