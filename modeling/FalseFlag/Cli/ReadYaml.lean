/-
  `toYAML` and a reader of YAML: what becomes of the lines.

  An empty array or object that is the value of a key is printed below the key, in COLUMN 0, since
  one-line texts have no indentation of their own.  There it is no part of the collection it belongs
  to.  Any other line is where the reader looks for it.  So the reader takes all lines up to the
  first such STRAY line, and that one is left over:
  * **`reads_printed`** — every value is read, up to its first empty member;
  * **`nestedDeeper_iff`** — and the stray lines are also the ones that are not indented deeper than
    their key.
-/
import FalseFlag.Cli.ToYaml
import FalseFlag.Lib.JsonSame

namespace FalseFlag.Cli

open Binary Ecma JsonTree Json Yaml
open List hiding replace

/-! ## Empty values -/

variable {v : Json Number}

/-- An array or an object that holds nothing. -/
def isEmpty : Json Number → Bool
  | .arr [] | .obj [] => true
  | _ => false

/-- **No member of an object is empty**: `[]` and `{}` stand in arrays only, or alone. -/
abbrev NoEmptyMember : Json Number → Prop := Everywhere (fun _ => True) fun _ x => isEmpty x = false

/-- An object in the sense of JavaScript holds something, or it is a leaf that holds nothing. -/
theorem object_cases (h : isObject v = true) :
    (isEmpty v = false ∧ ¬ IsLeaf v) ∨ (isEmpty v = true ∧ IsLeaf v) := by
  cases v with
  | arr items =>
    cases items with
    | nil => exact .inr ⟨rfl, trivial⟩
    | cons x xs => exact .inl ⟨rfl, id⟩
  | obj members =>
    cases members with
    | nil => exact .inr ⟨rfl, trivial⟩
    | cons m ms => exact .inl ⟨rfl, id⟩
  | _ => cases h

theorem isEmpty_of_not_object (h : isObject v = false) : isEmpty v = false := by
  cases v with
  | arr items => cases h
  | obj members => cases h
  | _ => rfl

/-- What is neither a scalar nor empty is printed on lines of its own. -/
theorem not_leaf (hobj : isObject v = true) (hempty : isEmpty v = false) :
    ¬ IsLeaf v := by
  rcases object_cases hobj with ⟨-, hleaf⟩ | ⟨hyes, -⟩
  · exact hleaf
  · rw [hempty] at hyes
    cases hyes

/-- What is empty is an object in that sense, printed on one line. -/
theorem object_of_empty (hempty : isEmpty v = true) :
    isObject v = true ∧ IsLeaf v := by
  rcases hobj : isObject v with _ | _
  · rw [isEmpty_of_not_object hobj] at hempty
    cases hempty
  · rcases object_cases hobj with ⟨hno, -⟩ | ⟨-, hleaf⟩
    · rw [hno] at hempty
      cases hempty
    · exact ⟨rfl, hleaf⟩

theorem noEmptyMember_sortNames (ms : List (String × Json Number)) :
    NoEmptyMember (.obj ms) ↔ ∀ m ∈ sortNames ms, isEmpty m.2 = false ∧ NoEmptyMember m.2 := by
  constructor
  · exact fun h m hm => everywhere_obj.mp h m (mem_sortNames.mp hm)
  · exact fun h => everywhere_obj.mpr fun m hm => h m (mem_sortNames.mpr hm)

/-! ## Lines that do not belong -/

/-- A line in column 0 that is no entry of anything. -/
def Stray (l : Line) : Prop := l.col = 0 ∧ ∃ x, piece l.text = .ok (.alone x)

variable {l : Line}

theorem Stray.ends (h : Stray l) (col : ℕ) (rest : List Line) :
    Ends col (l :: rest) := by
  intro l' hl'
  have heq : l = l' := Option.some.inj hl'
  rw [← heq]
  exact .inr h.2

theorem Stray.below (h : Stray l) (col : ℕ) (rest : List Line) :
    Below (col + 1) (l :: rest) := by
  intro l' hl'
  have heq : l = l' := Option.some.inj hl'
  rw [← heq, h.1]
  omega

theorem Stray.isEntry (h : Stray l) (col : ℕ) (rest : List Line) :
    Yaml.isEntry col (l :: rest) = false := by
  obtain ⟨x, hx⟩ := h.2
  rw [Yaml.isEntry, dash_of_alone hx]
  exact Bool.and_false _

/-- What becomes of lines: if all is good they are taken as `a`, and `r` is left; if not, the reader
    gets to a stray line, with something that has `Q`. -/
structure Outcome {α : Type} (isGood : Prop) (Q : α → Prop)
    (result : Except Verdict (α × List Line)) (a : α) (r : List Line) : Prop where
  good : isGood → result = .ok (a, r)
  bad : ¬ isGood → ∃ b l rest, result = .ok (b, l :: rest) ∧ Q b ∧ Stray l

variable {isGood : Prop} {r : List Line}

/-- Nothing can go wrong. -/
theorem Outcome.ok {α : Type} {Q : α → Prop} {result : Except Verdict (α × List Line)} {a : α}
    (h : isGood) (hresult : result = .ok (a, r)) : Outcome isGood Q result a r :=
  ⟨fun _ => hresult, fun hno => absurd h hno⟩

/-- What is read is wrapped up. -/
theorem Outcome.map {α β : Type} {isGood' : Prop} {Q : α → Prop} {Q' : β → Prop}
    {result : Except Verdict (α × List Line)} {a : α} (h : Outcome isGood Q result a r) (f : α → β)
    (hgood : isGood' ↔ isGood) (hQ : ∀ b, Q b → Q' (f b)) :
    Outcome isGood' Q' (result.map fun p => (f p.1, p.2)) (f a) r := by
  constructor
  · intro h'
    rw [h.good (hgood.mp h')]
    rfl
  · intro h'
    obtain ⟨b, l, rest, hresult, hb, hl⟩ := h.bad (mt hgood.mpr h')
    rw [hresult]
    exact ⟨f b, l, rest, rfl, hQ b hb, hl⟩

/-- **One thing after another.**  If the first is good, the outcome is that of the others; if not,
    the reader stands at a stray line, where there is `none` of the others. -/
theorem Outcome.seq {α β γ : Type} {areGood : Prop} {Q : β → Prop} {Q' : γ → Prop}
    {first : Except Verdict (α × List Line)} {others : List Line → Except Verdict (β × List Line)}
    {result : Except Verdict (γ × List Line)} {f : α → β → γ} {a : α} {b none : β}
    {mid : List Line} (hfirst : Outcome isGood (fun _ => True) first a mid)
    (hothers : Outcome areGood Q (others mid) b r) (hb : Q b) (hnone : Q none)
    (hstray : ∀ l rest, Stray l → others (l :: rest) = .ok (none, l :: rest))
    (hstep : ∀ x ls y ls', first = .ok (x, ls) → others ls = .ok (y, ls') → Q y →
      result = .ok (f x y, ls'))
    (hQ : ∀ x y, Q y → Q' (f x y)) : Outcome (isGood ∧ areGood) Q' result (f a b) r := by
  constructor
  · rintro ⟨hgood, hgoods⟩
    exact hstep a mid b r (hfirst.good hgood) (hothers.good hgoods) hb
  · intro hbad
    by_cases hgood : isGood
    · obtain ⟨y, l, rest, hy, hQy, hl⟩ := hothers.bad fun hgoods => hbad ⟨hgood, hgoods⟩
      exact ⟨f a y, l, rest, hstep a mid y _ (hfirst.good hgood) hy hQy, hQ a y hQy, hl⟩
    · obtain ⟨x, l, rest, hx, -, hl⟩ := hfirst.bad hgood
      exact ⟨f x none, l, rest, hstep x _ none _ hx (hstray l rest hl) hnone, hQ x none hnone, hl⟩

variable {ms : List (String × Json Number)}

/-- All keys are names of these members. -/
def KeysOf (ms : List (String × Json Number)) (es : List (Scalar × Node)) : Prop :=
  ∀ e ∈ es, ∃ m ∈ ms, e.1 = .str m.1

theorem KeysOf.not_mem {es : List (Scalar × Node)} (h : KeysOf ms es)
    {k : String} (hk : k ∉ ms.map Prod.fst) : Scalar.str k ∉ es.map Prod.fst := by
  intro hmem
  obtain ⟨e, he, hek⟩ := mem_map.mp hmem
  obtain ⟨m, hm, hem⟩ := h e he
  rw [hek] at hem
  injection hem with hname
  exact hk (hname ▸ mem_map_of_mem hm)

theorem KeysOf.cons {m : String × Json Number} {es : List (Scalar × Node)}
    (h : KeysOf ms es) (x : Node) : KeysOf (m :: ms) ((.str m.1, x) :: es) := by
  refine forall_mem_cons.mpr ⟨⟨m, mem_cons_self .., rfl⟩, ?_⟩
  intro e he
  obtain ⟨m', hm', hem⟩ := h e he
  exact ⟨m', mem_cons_of_mem _ hm', hem⟩

/-! ## What is read -/

variable [NumberText]

/-- The node that a number reads back as: the words for what is not finite are strings in YAML. -/
def numberNode : Number → Node
  | .finite q => .scalar (.num ((Decimal.read (numberToString q)).getD 0))
  | n => .scalar (.str (String.ofList (numberText n)))

mutual

/-- The node that a value reads back as. -/
def nodeOf : Json Number → Node
  | .null => .scalar .null
  | .bool b => .scalar (.bool b)
  | .num n => numberNode n
  | .str s => .scalar (.str s)
  | .arr items => .seq (nodeItems items)
  | .obj members => .map ((sortNames (nodeMembers members)).map fun m => (.str m.1, m.2))
  termination_by structural v => v

/-- The nodes of items. -/
def nodeItems : List (Json Number) → List Node
  | [] => []
  | x :: xs => nodeOf x :: nodeItems xs
  termination_by structural xs => xs

/-- The nodes of members. -/
def nodeMembers : List (String × Json Number) → List (String × Node)
  | [] => []
  | (k, x) :: ms => (k, nodeOf x) :: nodeMembers ms
  termination_by structural ms => ms

end

/-- The entry of a mapping that a member should read back as. -/
def entryOf (m : String × Json Number) : Scalar × Node := (.str m.1, nodeOf m.2)

theorem nodeOf_arr (xs : List (Json Number)) : nodeOf (.arr xs) = .seq (xs.map nodeOf) := by
  have hitems : nodeItems xs = xs.map nodeOf := by
    induction xs with
    | nil => rfl
    | cons x xs ih => rw [nodeItems, ih, map_cons]
  rw [nodeOf, hitems]

theorem nodeOf_obj (ms : List (String × Json Number)) :
    nodeOf (.obj ms) = .map ((sortNames ms).map entryOf) := by
  have hmembers : nodeMembers ms = ms.map fun m => (m.1, nodeOf m.2) := by
    induction ms with
    | nil => rfl
    | cons m ms ih => rw [nodeMembers, ih, map_cons]
  rw [nodeOf, hmembers, map_sortNames (fun _ x => nodeOf x), map_map]
  rfl

theorem piece_numberText {n : Number} (hn : IsNumber n) :
    piece (numberText n) = .ok (.alone (numberNode n)) := by
  cases n with
  | nan => exact hn.elim
  | infinity negative =>
    cases negative with
    | false => rfl
    | true => rfl
  | finite q =>
    obtain ⟨d, hread, -⟩ := read_numberToString hn.1
    obtain ⟨c, cs, htext, hhead⟩ := numberToString_head q
    have hstart : plainStart c cs.head? = true := by
      rcases hhead with hdigit | ⟨rfl, e, es, rfl, hdigit⟩
      · exact plainStart_digit hdigit _
      · exact plainStart_minus hdigit
    have hpiece := piece_number hread (numberToString_chars q) ⟨c, cs, htext, hstart⟩
    rw [numberNode, hread]
    exact hpiece

/-- A leaf reads back. -/
theorem piece_leaf (h : IsLeaf v) (hv : Readable v) (indent : ℕ) :
    piece (toYAML indent v) = .ok (.alone (nodeOf v)) := by
  cases v with
  | null => rfl
  | bool b =>
    cases b with
    | false => rfl
    | true => rfl
  | num n =>
    cases hv with
    | num hn => exact piece_numberText hn
  | str s =>
    exact piece_quoted (readQuotedChar_backslash isControl_lt fun c hc => decide_eq_true hc)
      (CharCode.ofUni isControl isControl_lt).esc_head s
  | arr items =>
    cases items with
    | nil => rfl
    | cons x xs => exact h.elim
  | obj members =>
    cases members with
    | nil => rfl
    | cons m ms => exact h.elim

/-! ### Sequences and mappings -/

/-- The first line is moved to a column. -/
def placed (col : ℕ) : List Line → List Line
  | [] => []
  | l :: ls => ⟨col, l.text⟩ :: ls

/-- The lines of a value, placed in its column, are read as they should. -/
def Reads (indent : ℕ) (v : Json Number) : Prop :=
  ∀ (least n : ℕ) (r : List Line), least ≤ 2 * indent → Below least r →
    2 * weight (printed indent v) + 2 ≤ n →
    Outcome (NoEmptyMember v) (fun _ => True)
      (node n least (placed (2 * indent) (printed indent v) ++ r)) (nodeOf v) r

theorem below_items (indent : ℕ) (xs : List (Json Number)) (hr : Below (2 * indent) r) :
    Below (2 * indent + 1) (xs.flatMap (itemLines indent) ++ r) := by
  cases xs with
  | nil => exact hr.mono (by omega)
  | cons x xs =>
    obtain ⟨l, rest, -, hlines⟩ := itemLines_eq indent x
    intro l' hl'
    rw [flatMap_cons, hlines] at hl'
    have heq : ⟨2 * indent, '-' :: ' ' :: l.text⟩ = l' := Option.some.inj hl'
    rw [← heq]
    show 2 * indent < 2 * indent + 1
    omega

/-- **The items of an array.**  After the first stray line nothing more is taken. -/
theorem entries_items (indent : ℕ) (xs : List (Json Number)) (hx : ∀ x ∈ xs, Readable x)
    (hreads : ∀ x ∈ xs, Reads (indent + 1) x) {n : ℕ} (hr : Below (2 * indent) r)
    (hn : 2 * weight (xs.flatMap (itemLines indent)) + 1 ≤ n) :
    Outcome (∀ x ∈ xs, NoEmptyMember x) (fun _ => True)
      (entries n (2 * indent) (xs.flatMap (itemLines indent) ++ r)) (xs.map nodeOf) r := by
  induction xs generalizing n with
  | nil =>
    obtain ⟨m, rfl⟩ : ∃ m, n = m + 1 := ⟨n - 1, by omega⟩
    exact Outcome.ok (fun _ h => by cases h) (entries_ends hr.ends)
  | cons x xs ih =>
    obtain ⟨hx0, hxs⟩ := forall_mem_cons.mp hx
    obtain ⟨hread, hreads'⟩ := forall_mem_cons.mp hreads
    obtain ⟨l, rest, hls, hline⟩ := itemLines_eq indent x
    have hl : l.Solid :=
      printed_solid x hx0 (indent + 1) l (by rw [hls]; exact mem_cons_self ..)
    have hweight : weight (itemLines indent x) = weight (printed (indent + 1) x) + 2 := by
      rw [hline, hls, weight_cons, weight_cons]
      simp only [length_cons]
      omega
    have hpos : 0 < weight (printed (indent + 1) x) := by
      rw [hls, weight_cons]
      omega
    rw [flatMap_cons, weight_append, hweight] at hn
    obtain ⟨m, rfl⟩ : ∃ m, n = m + 2 := ⟨n - 2, by omega⟩
    have hnode := hread (2 * indent + 1) (m + 1) (xs.flatMap (itemLines indent) ++ r) (by omega)
      (below_items indent xs hr) (by omega)
    -- what follows the dash is the first line of the item, in its own column
    have hpush : push (2 * indent + 1) (' ' :: l.text)
        (rest ++ (xs.flatMap (itemLines indent) ++ r)) =
          placed (2 * (indent + 1)) (printed (indent + 1) x) ++
            (xs.flatMap (itemLines indent) ++ r) := by
      rw [push_solid ⟨hl.start, hl.noBreak⟩, hls]
      rfl
    rw [flatMap_cons, hline, append_assoc, forall_mem_cons]
    have hitems := ih hxs hreads' (n := m + 1) (by omega)
    refine Outcome.seq (f := List.cons) hnode hitems trivial trivial
      (fun l rest hl => entries_ends (hl.ends _ _)) ?_ fun _ _ _ => trivial
    intro y ls ys ls' hy hys _
    rw [← hpush] at hy
    rw [cons_append, entries_cons (l := ⟨2 * indent, _⟩) (piece_dash _) hy, hys]
    rfl

/-- What is not a leaf is printed in its own column. -/
theorem printed_col (h : ¬ IsLeaf v) (indent : ℕ) :
    ∃ l rest, printed indent v = l :: rest ∧ l.col = 2 * indent := by
  induction v using induct_printed with
  | leaf v hleaf => exact absurd hleaf h
  | arr x xs _ =>
    obtain ⟨l, rest, -, hlines⟩ := itemLines_eq indent x
    rw [printed_arr, flatMap_cons, hlines]
    exact ⟨_, _, rfl, rfl⟩
  | obj m ms _ =>
    obtain ⟨m', rest, hsorted⟩ := exists_cons_of_ne_nil (sortNames_ne_nil m ms)
    obtain ⟨l, rest', hlines, hcol⟩ := memberLines_cons indent m'
    rw [printed_obj, hsorted, flatMap_cons, hlines]
    exact ⟨l, _, rfl, hcol⟩

theorem placed_printed (h : ¬ IsLeaf v) (indent : ℕ) :
    placed (2 * indent) (printed indent v) = printed indent v := by
  obtain ⟨l, rest, hprinted, hcol⟩ := printed_col h indent
  rw [hprinted, ← hcol]
  rfl

/-- The line of a member is read as its key, and the value is read unless it is empty. -/
def MemberReads (indent : ℕ) (m : String × Json Number) : Prop :=
  ∃ l ls after, memberLines indent m = l :: ls ∧ l.col = 2 * indent ∧
    piece l.text = .ok (.key (.str m.1) after) ∧
    ∀ {n : ℕ} {tail : List Line}, Below (2 * indent + 1) tail →
      2 * weight (memberLines indent m) ≤ n →
      Outcome (isEmpty m.2 = false ∧ NoEmptyMember m.2) (fun _ => True)
        (value n (2 * indent) after (ls ++ tail)) (nodeOf m.2) tail

section Member

variable {indent : ℕ} {m : String × Json Number} (hkey : PlainKey m.1.toList) (hvalue : Readable m.2)

include hkey

omit [NumberText] in
theorem piece_key {r : List Char} (hr : ends r = true) :
    piece (m.1.toList ++ ':' :: r) = .ok (.key (.str m.1) (r.dropWhile isWhite)) := by
  rw [piece_plainKey hkey hr, String.ofList_toList]

include hvalue

/-- A value on the lines below its key.  If it is empty, its line is in column 0: then the key has
    no value, and the line is left over. -/
theorem memberReads_nested (hobj : isObject m.2 = true) (hlines : memberLines indent m =
    ⟨2 * indent, m.1.toList ++ [':']⟩ :: printed (indent + 1) m.2)
    (hreads : Reads (indent + 1) m.2) : MemberReads indent m := by
  refine ⟨_, _, [], hlines, rfl, piece_key hkey rfl, ?_⟩
  intro n tail htail hn
  rw [hlines, weight_cons] at hn
  simp only [length_append, length_singleton] at hn
  obtain ⟨k, rfl⟩ : ∃ k, n = k + 2 := ⟨n - 2, by omega⟩
  rcases object_cases hobj with ⟨hempty, hleaf⟩ | ⟨hempty, hleaf⟩
  · obtain ⟨l, rest, hprinted, hcol⟩ := printed_col hleaf (indent + 1)
    have hentry : isEntry (2 * indent) (printed (indent + 1) m.2 ++ tail) = false := by
      have hne : (l.col == 2 * indent) = false := by
        rw [hcol, beq_eq_false_iff_ne]
        omega
      rw [hprinted, cons_append, isEntry, hne, Bool.false_and]
    have hnode := hreads (2 * indent + 1) (k + 1) tail (by omega) htail (by omega)
    rw [placed_printed hleaf] at hnode
    rw [value_nested hentry]
    exact ⟨fun hgood => hnode.good hgood.2, fun hbad => hnode.bad fun h => hbad ⟨hempty, h⟩⟩
  · have hstray : Stray ⟨0, toYAML (indent + 1) m.2⟩ := ⟨rfl, _, piece_leaf hleaf hvalue _⟩
    rw [printed_leaf hleaf, singleton_append, value_nested (hstray.isEntry _ _),
      node_none (hstray.below _ _)]
    constructor
    · rintro ⟨hno, -⟩
      rw [hempty] at hno
      cases hno
    · intro _
      exact ⟨_, _, _, rfl, trivial, hstray⟩

/-- A value on the line of its key. -/
theorem memberReads_inline (hobj : isObject m.2 = false) (hlines : memberLines indent m =
    [⟨2 * indent, m.1.toList ++ (':' :: ' ' :: toYAML (indent + 1) m.2)⟩]) :
    MemberReads indent m := by
  have hleaf := leaf_of_not_object hobj
  obtain ⟨c, cs, htext, hspace, hhash⟩ := (firm_leaf hleaf (indent + 1)).start
  have hafter : (' ' :: toYAML (indent + 1) m.2).dropWhile isWhite = toYAML (indent + 1) m.2 := by
    rw [htext, dropWhile_cons_of_pos (by decide),
      dropWhile_cons_of_neg (by rw [isWhite_of_not hspace]; exact Bool.false_ne_true)]
  have hinline : (toYAML (indent + 1) m.2).head?.all (· == '#') = false := by
    rw [htext]
    exact beq_eq_false_iff_ne.mpr hhash
  refine ⟨_, [], _, hlines, rfl, piece_key hkey rfl, ?_⟩
  intro n tail htail hn
  rw [hlines, weight_cons] at hn
  obtain ⟨k, rfl⟩ : ∃ k, n = k + 1 := ⟨n - 1, by omega⟩
  rw [hafter, nil_append]
  exact Outcome.ok ⟨isEmpty_of_not_object hobj, everywhere_leaf hleaf fun _ _ => trivial⟩
    (value_inline hinline (piece_leaf hleaf hvalue _) htail)

/-- **One member of an object.** -/
theorem member_reads (hreads : Reads (indent + 1) m.2) : MemberReads indent m := by
  rcases memberLines_cases indent m with ⟨hobj, hlines⟩ | ⟨hobj, hlines⟩
  · exact memberReads_nested hkey hvalue hobj hlines hreads
  · exact memberReads_inline hkey hvalue hobj hlines

end Member

theorem below_members (indent : ℕ) (ms : List (String × Json Number)) (hr : Below (2 * indent) r) :
    Below (2 * indent + 1) (ms.flatMap (memberLines indent) ++ r) := by
  cases ms with
  | nil => exact hr.mono (by omega)
  | cons m ms =>
    obtain ⟨l, ls, hlines, hcol⟩ := memberLines_cons indent m
    intro l' hl'
    rw [flatMap_cons, hlines] at hl'
    have heq : l = l' := Option.some.inj hl'
    rw [← heq, hcol]
    omega

theorem keysOf_entryOf (ms : List (String × Json Number)) : KeysOf ms (ms.map entryOf) := by
  intro e he
  obtain ⟨m, hm, rfl⟩ := mem_map.mp he
  exact ⟨m, hm, rfl⟩

/-- **The members of an object**, in the order they are printed. -/
theorem members_entries (indent : ℕ) (ms : List (String × Json Number))
    (hms : ∀ m ∈ ms, PlainKey m.1.toList ∧ Readable m.2) (hreads : ∀ m ∈ ms, Reads (indent + 1) m.2)
    (hnodup : (ms.map Prod.fst).Nodup) {n : ℕ} (hr : Below (2 * indent) r)
    (hn : 2 * weight (ms.flatMap (memberLines indent)) + 1 ≤ n) :
    Outcome (∀ m ∈ ms, isEmpty m.2 = false ∧ NoEmptyMember m.2) (KeysOf ms)
      (members n (2 * indent) (ms.flatMap (memberLines indent) ++ r)) (ms.map entryOf) r := by
  induction ms generalizing n with
  | nil =>
    obtain ⟨m, rfl⟩ : ∃ m, n = m + 1 := ⟨n - 1, by omega⟩
    exact Outcome.ok (fun _ h => by cases h) (members_ends hr.ends)
  | cons m ms ih =>
    obtain ⟨⟨hkey, hvalue⟩, hms'⟩ := forall_mem_cons.mp hms
    obtain ⟨hread, hreads'⟩ := forall_mem_cons.mp hreads
    obtain ⟨hfresh, hnodup'⟩ := nodup_cons.mp hnodup
    have hmember : MemberReads indent m := member_reads hkey hvalue hread
    obtain ⟨l, ls, after, hlines, hcol, hpiece, hvalues⟩ := hmember
    have hpos : 0 < weight (memberLines indent m) := by
      rw [hlines, weight_cons]
      omega
    rw [flatMap_cons, weight_append] at hn
    obtain ⟨k, rfl⟩ : ∃ k, n = k + 2 := ⟨n - 2, by omega⟩
    have hout := @hvalues (k + 1) _ (below_members indent ms hr) (by omega)
    rw [flatMap_cons, hlines, append_assoc, forall_mem_cons]
    have hentries := ih hms' hreads' hnodup' (n := k + 1) (by omega)
    refine Outcome.seq (f := fun x es => (.str m.1, x) :: es) hout hentries (keysOf_entryOf ms)
      (fun _ h => by cases h) (fun l rest hl => members_ends (hl.ends _ _)) ?_
      fun x _ hes => hes.cons x
    intro x ls' es ls'' hx hes hnames
    rw [← hcol] at hx hes ⊢
    exact Yaml.members_cons hpiece hx hes (hnames.not_mem hfresh)

/-! ### Whole values -/

theorem reads_leaf (h : IsLeaf v) (hv : Readable v) (indent : ℕ) :
    Reads indent v := by
  intro least n r hle hr hn
  obtain ⟨m, rfl⟩ : ∃ m, n = m + 1 := ⟨n - 1, by omega⟩
  rw [printed_leaf h]
  exact Outcome.ok (everywhere_leaf h fun _ _ => trivial)
    (node_alone (l := ⟨2 * indent, _⟩) hle (piece_leaf h hv indent) hr)

variable {x : Json Number} {indent : ℕ}

theorem reads_arr {xs : List (Json Number)} (hv : Readable (.arr (x :: xs)))
    (hreads : ∀ y ∈ x :: xs, Reads (indent + 1) y) : Reads indent (.arr (x :: xs)) := by
  intro least n r hle hr hn
  have hx := everywhere_arr.mp hv
  obtain ⟨m, rfl⟩ : ∃ m, n = m + 1 := ⟨n - 1, by omega⟩
  rw [placed_printed id]
  rw [printed_arr] at hn ⊢
  have hentries := entries_items indent (x :: xs) hx hreads (n := m) (hr.mono hle) (by omega)
  obtain ⟨l, rest, -, hitem⟩ := itemLines_eq indent x
  rw [flatMap_cons, hitem, append_assoc, cons_append] at hentries ⊢
  rw [node_dash (l := ⟨2 * indent, _⟩) hle (piece_dash _), nodeOf_arr]
  exact hentries.map Node.seq everywhere_arr fun _ _ => trivial

theorem reads_obj {m : String × Json Number}
    (hv : Readable (.obj (m :: ms))) (hnodup : (Json.obj (m :: ms)).NoDup)
    (hreads : ∀ m' ∈ m :: ms, Reads (indent + 1) m'.2) : Reads indent (.obj (m :: ms)) := by
  intro least n r hle hr hn
  have hkeys : ∀ m' ∈ sortNames (m :: ms), PlainKey m'.1.toList ∧ Readable m'.2 :=
    fun m' hm' => everywhere_obj.mp hv m' (mem_sortNames.mp hm')
  have hreads' : ∀ m' ∈ sortNames (m :: ms), Reads (indent + 1) m'.2 :=
    fun m' hm' => hreads m' (mem_sortNames.mp hm')
  have hnames : ((sortNames (m :: ms)).map Prod.fst).Nodup :=
    ((perm_sortNames (m :: ms)).map Prod.fst).nodup_iff.mpr hnodup.names
  obtain ⟨k, rfl⟩ : ∃ k, n = k + 1 := ⟨n - 1, by omega⟩
  rw [placed_printed id]
  rw [printed_obj] at hn ⊢
  have hentries := members_entries indent _ hkeys hreads' hnames (n := k) (hr.mono hle) (by omega)
  have hgood := noEmptyMember_sortNames (m :: ms)
  rw [nodeOf_obj]
  -- the first line is the key of the member that is printed first
  obtain ⟨m', rest, hsorted⟩ := exists_cons_of_ne_nil (sortNames_ne_nil m ms)
  rw [hsorted] at hkeys hreads' hentries hgood ⊢
  obtain ⟨⟨hkey, hvalue⟩, -⟩ := forall_mem_cons.mp hkeys
  obtain ⟨l, ls, after, hline, hcol, hpiece, -⟩ :=
    member_reads hkey hvalue (forall_mem_cons.mp hreads').1
  rw [flatMap_cons, hline, append_assoc, cons_append] at hentries ⊢
  rw [← hcol] at hentries
  rw [node_key (by omega) hpiece]
  exact hentries.map Node.map hgood fun _ _ => trivial

/-- **Every value is read as it should**, up to the first empty member. -/
theorem reads_printed (v : Json Number) (hv : Readable v) (hnodup : v.NoDup) :
    ∀ indent, Reads indent v := by
  induction v using induct_printed with
  | leaf v h => exact reads_leaf h hv
  | arr x xs ih =>
    intro indent
    have hx := everywhere_arr.mp hv
    exact reads_arr hv fun y hy => ih y hy (hx y hy) (hnodup.item hy) (indent + 1)
  | obj m ms ih =>
    intro indent
    have hms := everywhere_obj.mp hv
    exact reads_obj hv hnodup fun m' hm' =>
      ih m' hm' (hms m' hm').2 (hnodup.member hm') (indent + 1)

/-- **What a text with these lines is, read as YAML**: the value, or nothing. -/
theorem read_printed (hv : Readable v) (hkeys : ReadableKeys 0 false v)
    (hnodup : v.NoDup) {text : List Char} (hlines : lines text = printed 0 v)
    (hlen : weight (printed 0 v) ≤ text.length + 1) :
    (NoEmptyMember v → Yaml.read text = .ok (nodeOf v)) ∧
      (¬ NoEmptyMember v → Yaml.read text = .error .invalid) := by
  have hforeign : ∀ l ∈ printed 0 v, l.foreign = false := fun l hl =>
    (printed_solid v hv 0 l hl).not_foreign (printed_unmarked v hkeys (fun _ => rfl) l hl)
  have hplaced : placed (2 * 0) (printed 0 v) = printed 0 v := by
    by_cases hleaf : IsLeaf v
    · rw [printed_leaf hleaf]
      rfl
    · exact placed_printed hleaf 0
  have hout := reads_printed v hv hnodup 0 0 (4 * text.length + 4) [] (Nat.zero_le _)
    (fun _ h => by cases h) (by omega)
  rw [hplaced, append_nil] at hout
  constructor
  · intro hgood
    exact read_taken hlines hforeign (hout.good hgood)
  · intro hbad
    obtain ⟨x, l, rest, hnode, -, -⟩ := hout.bad hbad
    exact read_left hlines hforeign hnode

/-- The lines of the text are the lines that are printed. -/
theorem lines_toYAML (hv : Readable v) (hkeys : ReadableKeys 0 false v) :
    lines (toYAML 0 v) = printed 0 v := by
  rw [toYAML_eq v hkeys, lines_textOf (printed_ne_nil v 0) (printed_solid v hv 0)]

theorem weight_toYAML (hkeys : ReadableKeys 0 false v) :
    weight (printed 0 v) ≤ (toYAML 0 v).length + 1 := by
  rw [toYAML_eq v hkeys]
  exact weight_le _

/-! ## The value that is denoted -/

/-- A decimal number, as JavaScript has it. -/
def toNumber (q : ℚ) : Number := .finite (binary64.round q)

/-- What a number reads back as: a string, unless it is finite. -/
def numberRead : Number → Json Number
  | .finite q => .num (.finite q)
  | n => .str (String.ofList (numberText n))

/-- The value that the text of a value denotes. -/
abbrev readBack : Json Number → Json Number := replace numberRead id

/-- All numbers are finite. -/
abbrev Finite : Json Number → Prop := Everywhere (fun n => ∃ q, n = .finite q) fun _ _ => True

theorem jsonItems_nodeOf (xs : List (Json Number))
    (h : ∀ x ∈ xs, ∃ w, (nodeOf x).json? toNumber = some w ∧ Same w (readBack x)) :
    ∃ ws, jsonItems? toNumber (xs.map nodeOf) = some ws ∧
      Forall₂ Same ws (xs.map readBack) := by
  induction xs with
  | nil => exact ⟨[], rfl, .nil⟩
  | cons x xs ih =>
    obtain ⟨hx, hxs⟩ := forall_mem_cons.mp h
    obtain ⟨w, hw, hsame⟩ := hx
    obtain ⟨ws, hws, hsames⟩ := ih hxs
    refine ⟨w :: ws, ?_, .cons hsame hsames⟩
    rw [map_cons, jsonItems?, hw, hws]
    rfl

theorem jsonMembers_entryOf (ms : List (String × Json Number))
    (h : ∀ m ∈ ms, ∃ w, (nodeOf m.2).json? toNumber = some w ∧ Same w (readBack m.2)) :
    ∃ ws, jsonMembers? toNumber (ms.map entryOf) = some ws ∧
      ∀ k, Option.Rel Same (ws.lookup k) ((ms.lookup k).map readBack) := by
  induction ms with
  | nil => exact ⟨[], rfl, fun _ => .none⟩
  | cons m ms ih =>
    obtain ⟨hm, hms⟩ := forall_mem_cons.mp h
    obtain ⟨w, hw, hsame⟩ := hm
    obtain ⟨ws, hws, hsames⟩ := ih hms
    refine ⟨(m.1, w) :: ws, ?_, ?_⟩
    · rw [map_cons, entryOf, jsonMembers?, hw, hws]
      rfl
    · intro k
      rw [lookup_cons, show m = (m.1, m.2) from rfl, lookup_cons]
      rcases hk : k == m.1 with _ | _
      · exact hsames k
      · exact .some hsame

theorem lookup_readBack (k : String) (ms : List (String × Json Number)) :
    (replaceMembers numberRead id ms).lookup k = (ms.lookup k).map readBack :=
  lookup_replaceMembers _ id fun _ _ h => h

/-- **The node of a value denotes the value**, but for numbers that are not finite. -/
theorem json_nodeOf (v : Json Number) (hv : Readable v) (hnodup : v.NoDup) :
    ∃ w, (nodeOf v).json? toNumber = some w ∧ Same w (readBack v) := by
  induction v with
  | null => exact ⟨.null, rfl, .null⟩
  | bool b => exact ⟨.bool b, rfl, .bool b⟩
  | num n =>
    cases n with
    | nan => exact ⟨_, rfl, .str _⟩
    | infinity negative => exact ⟨_, rfl, .str _⟩
    | finite q =>
      cases hv with
      | num hq =>
        obtain ⟨d, hread, hround⟩ := read_numberToString hq.1
        refine ⟨.num (.finite q), ?_, .num _⟩
        rw [nodeOf, numberNode, hread]
        show some (Json.num (Number.finite (binary64.round d))) = _
        rw [hround]
  | str s => exact ⟨.str s, rfl, .str s⟩
  | arr items ih =>
    have hitems := everywhere_arr.mp hv
    obtain ⟨ws, hws, hsame⟩ := jsonItems_nodeOf items fun x hx =>
      ih x hx (hitems x hx) (hnodup.item hx)
    refine ⟨.arr ws, ?_, ?_⟩
    · rw [nodeOf_arr, Node.json?, hws]
      rfl
    · rw [readBack, replace, replaceItems_eq_map]
      exact .arr hsame
  | obj members ih =>
    have hmembers := everywhere_obj.mp hv
    have hperm := perm_sortNames members
    obtain ⟨ws, hws, hsame⟩ := jsonMembers_entryOf (sortNames members) fun m hm =>
      ih m (mem_sortNames.mp hm) (hmembers m (mem_sortNames.mp hm)).2
        (hnodup.member (mem_sortNames.mp hm))
    have hnames : ((sortNames members).map Prod.fst).Nodup :=
      (hperm.map Prod.fst).nodup_iff.mpr hnodup.names
    refine ⟨.obj ws, ?_, ?_⟩
    · rw [nodeOf_obj, Node.json?, hws]
      rfl
    · refine .obj fun k => ?_
      rw [lookup_readBack, ← lookup_perm hperm hnames k]
      exact hsame k

theorem readBack_of_finite (v : Json Number) (h : Finite v) : readBack v = v := by
  induction v with
  | null => rfl
  | bool b => rfl
  | num n =>
    cases h with
    | num hn =>
      obtain ⟨q, rfl⟩ := hn
      rfl
  | str s => rfl
  | arr items ih =>
    have hitems : items.map readBack = items := by
      conv_rhs => rw [← map_id items]
      exact map_congr_left fun x hx => ih x hx (everywhere_arr.mp h x hx)
    rw [readBack, replace, replaceItems_eq_map, hitems]
  | obj members ih =>
    have hmembers : members.map (fun m => (id m.1, readBack m.2)) = members := by
      conv_rhs => rw [← map_id members]
      refine map_congr_left fun m hm => ?_
      rw [ih m hm (everywhere_obj.mp h m hm).2]
      rfl
    rw [readBack, replace, replaceMembers_eq_map, hmembers]

/-- **What is read back is the value only if all numbers are finite.** -/
theorem finite_of_same (v : Json Number) (hnodup : v.NoDup) :
    ∀ w, Same w (readBack v) → Same w v → Finite v := by
  induction v with
  | null => exact fun _ _ _ => .null
  | bool b => exact fun _ _ _ => .bool b
  | num n =>
    intro w hback hsame
    cases hsame
    cases n with
    | nan => cases hback
    | infinity negative => cases hback
    | finite q => exact .num ⟨q, rfl⟩
  | str s => exact fun _ _ _ => .str s
  | arr items ih =>
    intro w hback hsame
    rw [readBack, replace, replaceItems_eq_map] at hback
    cases hsame with
    | @arr ws _ hsames =>
      cases hback with
      | arr hbacks =>
        have hboth : Forall₂ (fun y x => ∃ w, Same w y ∧ Same w x) (items.map readBack) items :=
          Relators.forall₂_trans (fun _ _ w _ h h' => ⟨w, h, h'⟩) hbacks.flip hsames
        rw [forall₂_map_left_iff, forall₂_same] at hboth
        refine .arr fun x hx => ?_
        obtain ⟨w, hback, hsame⟩ := hboth x hx
        exact ih x hx (hnodup.item hx) w hback hsame
  | obj members ih =>
    intro w hback hsame
    rw [readBack, replace] at hback
    cases hsame with
    | @obj ws _ hsames =>
      cases hback with
      | obj hbacks =>
        refine .obj (fun _ _ => trivial) fun m hm => ?_
        have hlookup := lookup_of_mem hnodup.names hm
        have hsame := hsames m.1
        have hback := hbacks m.1
        rw [lookup_readBack, hlookup] at hback
        rw [hlookup] at hsame
        rcases hw : ws.lookup m.1 with _ | w
        · rw [hw] at hsame
          cases hsame
        · rw [hw] at hsame hback
          cases hsame with
          | some hsame =>
            cases hback with
            | some hback => exact ih m hm (hnodup.member hm) w hback hsame

/-! ## Indentation -/

/-- How far a line of text is indented. -/
def indentation (line : List Char) : ℕ := (line.takeWhile (· == ' ')).length

/-- **What is nested under a key is indented deeper than the key**: every line of the text of an
    array or an object that is the value of a key, throughout a value printed at `indent`. -/
inductive NestedDeeper : ℕ → Json Number → Prop
  | leaf {indent : ℕ} {v : Json Number} : IsLeaf v → NestedDeeper indent v
  | arr {indent : ℕ} {items : List (Json Number)} :
      (∀ x ∈ items, NestedDeeper (indent + 1) x) → NestedDeeper indent (.arr items)
  | obj {indent : ℕ} {members : List (String × Json Number)} :
      (∀ m ∈ members, isObject m.2 = true →
        ∀ line ∈ (toYAML (indent + 1) m.2).splitOn '\n', 2 * indent < indentation line) →
      (∀ m ∈ members, NestedDeeper (indent + 1) m.2) → NestedDeeper indent (.obj members)

/-- Without empty members, no line is to the left of the value's column. -/
theorem printed_deep (v : Json Number) (hgood : NoEmptyMember v) (h : ¬ IsLeaf v) :
    ∀ indent, ∀ l ∈ printed indent v, 2 * indent ≤ l.col := by
  induction v using induct_printed with
  | leaf v hleaf => exact absurd hleaf h
  | arr x xs ih =>
    intro indent l hl
    rw [printed_arr] at hl
    obtain ⟨y, hy, hl⟩ := mem_flatMap.mp hl
    obtain ⟨l', rest, hls, hlines⟩ := itemLines_eq indent y
    rw [hlines] at hl
    rcases mem_cons.mp hl with rfl | hl
    · exact Nat.le_refl _
    · by_cases hleaf : IsLeaf y
      · rw [printed_leaf hleaf] at hls
        injection hls with _ hrest
        rw [← hrest] at hl
        cases hl
      · have hdeep := ih y hy (everywhere_arr.mp hgood y hy) hleaf (indent + 1) l
          (by rw [hls]; exact mem_cons_of_mem _ hl)
        omega
  | obj m ms ih =>
    intro indent l hl
    rw [printed_obj] at hl
    obtain ⟨m', hm', hl⟩ := mem_flatMap.mp hl
    have hmem := mem_sortNames.mp hm'
    obtain ⟨hempty, hgood'⟩ := everywhere_obj.mp hgood m' hmem
    rcases memberLines_cases indent m' with ⟨hobj, hlines⟩ | ⟨-, hlines⟩
    · rw [hlines] at hl
      rcases mem_cons.mp hl with rfl | hl
      · exact Nat.le_refl _
      · have hleaf := not_leaf hobj hempty
        have hdeep := ih m' hmem hgood' hleaf (indent + 1) l hl
        omega
    · rw [hlines] at hl
      rw [mem_singleton.mp hl]

omit [NumberText] in
theorem indentation_raw (h : l.Solid) : indentation l.raw = l.col :=
  congrArg Line.col h.toLine_raw

/-- The lines of the text, as they are printed. -/
theorem splitOn_toYAML (hv : Readable v) {item : Bool} (hkeys : ReadableKeys indent item v) :
    (toYAML indent v).splitOn '\n' = (printed indent v).map Line.raw := by
  rw [toYAML_eq v hkeys, splitOn_textOf (printed_ne_nil v indent) (printed_solid v hv indent)]

/-- The brackets of an empty member are one line, in column 0. -/
theorem not_deeper_of_empty (hx : Readable x) (hempty : isEmpty x = true)
    (indent col : ℕ) : ¬ ∀ line ∈ (toYAML indent x).splitOn '\n', col < indentation line := by
  intro hlines
  have hleaf := (object_of_empty hempty).2
  have hkeys : ReadableKeys indent false x := .leaf hleaf
  have hsplit := splitOn_toYAML hx hkeys
  rw [printed_leaf hleaf] at hsplit
  have hdeep := hlines _ (by
    rw [hsplit]
    exact mem_singleton_self _)
  rw [indentation_raw ((firm_leaf hleaf indent).solid 0)] at hdeep
  cases hdeep

theorem deeper_of_noEmptyMember (hx : Readable x) (hgood : NoEmptyMember x)
    (hleaf : ¬ IsLeaf x) (hkeys : ReadableKeys (indent + 1) false x) :
    ∀ line ∈ (toYAML (indent + 1) x).splitOn '\n', 2 * indent < indentation line := by
  intro line hline
  rw [splitOn_toYAML hx hkeys] at hline
  obtain ⟨l, hl, rfl⟩ := mem_map.mp hline
  have hdeep := printed_deep x hgood hleaf (indent + 1) l hl
  rw [indentation_raw (printed_solid x hx (indent + 1) l hl)]
  omega

/-- **The indentation is right exactly when no member is empty.** -/
theorem nestedDeeper_iff (v : Json Number) (hv : Readable v) :
    ∀ {indent item}, ReadableKeys indent item v → (NestedDeeper indent v ↔ NoEmptyMember v) := by
  induction v using induct_printed with
  | leaf v h =>
    intro indent item _
    exact ⟨fun _ => everywhere_leaf h fun _ _ => trivial, fun _ => .leaf h⟩
  | arr x xs ih =>
    intro indent item hkeys
    have hx := everywhere_arr.mp hv
    constructor
    · intro h
      cases h with
      | leaf h => exact h.elim
      | arr h => exact .arr fun y hy => (ih y hy (hx y hy) (hkeys.items y hy)).mp (h y hy)
    · intro h
      exact .arr fun y hy => (ih y hy (hx y hy) (hkeys.items y hy)).mpr (everywhere_arr.mp h y hy)
  | obj m ms ih =>
    intro indent item hkeys
    have hms := everywhere_obj.mp hv
    constructor
    · intro h
      cases h with
      | leaf h => exact h.elim
      | obj hlines h =>
        refine .obj ?_ fun m' hm' => (ih m' hm' (hms m' hm').2 (hkeys.members m' hm').2).mp (h m' hm')
        intro m' hm'
        by_contra hempty
        rw [Bool.not_eq_false] at hempty
        exact not_deeper_of_empty (hms m' hm').2 hempty _ _
          (hlines m' hm' (object_of_empty hempty).1)
    · intro h
      have hgood := everywhere_obj.mp h
      refine .obj ?_ fun m' hm' => (ih m' hm' (hms m' hm').2 (hkeys.members m' hm').2).mpr (hgood m' hm').2
      intro m' hm' hobj
      exact deeper_of_noEmptyMember (hms m' hm').2 (hgood m' hm').2
        (not_leaf hobj (hgood m' hm').1) (hkeys.members m' hm').2

end FalseFlag.Cli
