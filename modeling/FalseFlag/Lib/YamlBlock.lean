/-
  YAML block collections: indentation.

  A text is a list of lines, each with a column and what stands there; blank lines and comment lines
  are gone.  `node` reads the node that starts at the first line, if that line is indented enough:
  * a dash starts a SEQUENCE, whose entries are the lines with a dash in the same column.  What
    follows a dash on its line is a line of its own, further right (`push`);
  * a key starts a MAPPING, whose entries are the lines with a key in the same column.  The value is
    on the line of the key, or on lines further right — or, for a sequence, in the SAME column;
  * anything else is a node on its own.
  A collection ends at the first line that is no entry of it.  If that line is no entry of any
  collection around it either, it is left over at the end, and the text is invalid.

  `read` is the whole of it.
-/
import FalseFlag.Lib.YamlScalar

namespace Yaml

open List JsonTree

/-! ## Lines -/

/-- A line without its indentation. -/
structure Line where
  col : ℕ
  text : List Char

/-- The line as it is written. -/
def Line.raw (l : Line) : List Char := List.replicate l.col ' ' ++ l.text

/-- The text of a list of lines. -/
def textOf (ls : List Line) : List Char := ['\n'].intercalate (ls.map Line.raw)

def toLine (raw : List Char) : Line :=
  ⟨(raw.takeWhile (· == ' ')).length, raw.dropWhile (· == ' ')⟩

/-- There is something on the line, and it is no comment. -/
def Line.hasContent (l : Line) : Bool := !l.text.all isWhite && l.text.head? != some '#'

/-- The lines of a text that have content. -/
def lines (text : List Char) : List Line :=
  ((text.splitOn '\n').map toLine).filter Line.hasContent

/-- A document marker, if it stands in column 0. -/
def isMarker (cs : List Char) : Bool :=
  (cs.take 3 == ['-', '-', '-'] || cs.take 3 == ['.', '.', '.']) && ends (cs.drop 3)

/-- The line is a document marker, or has a carriage return in it. -/
def Line.foreign (l : Line) : Bool := l.text.contains '\r' || l.col == 0 && isMarker l.text

/-- What follows a dash: a line further right, if there is anything. -/
def push (col : ℕ) (r : List Char) (ls : List Line) : List Line :=
  let l : Line := ⟨col + (toLine r).col, (toLine r).text⟩
  if l.hasContent then l :: ls else ls

/-! ## The reader -/

/-- A node that is complete: the next line must not be indented as deep. -/
def finish (least : ℕ) (x : Node) : List Line → Except Verdict (Node × List Line)
  | [] => .ok (x, [])
  | l :: ls => if least ≤ l.col then .error .beyond else .ok (x, l :: ls)

/-- The next line is an entry of a sequence in this column. -/
def isEntry (col : ℕ) : List Line → Bool
  | [] => false
  | l :: _ => l.col == col && (dash? l.text).isSome

mutual

/-- The node at the first line, if that is in column `least` or further right; `null` otherwise. -/
def node : ℕ → ℕ → List Line → Except Verdict (Node × List Line)
  | 0, _, _ => .error .beyond
  | _ + 1, _, [] => .ok (.scalar .null, [])
  | n + 1, least, l :: ls =>
    if l.col < least then .ok (.scalar .null, l :: ls)
    else
      match piece l.text with
      | .error e => .error e
      | .ok (.alone x) => finish least x ls
      | .ok (.dash _) => (entries n l.col (l :: ls)).map fun (xs, ls) => (.seq xs, ls)
      | .ok (.key _ _) => (members n l.col (l :: ls)).map fun (ms, ls) => (.map ms, ls)
  termination_by structural n => n

/-- The entries of a sequence. -/
def entries : ℕ → ℕ → List Line → Except Verdict (List Node × List Line)
  | 0, _, _ => .error .beyond
  | _ + 1, _, [] => .ok ([], [])
  | n + 1, col, l :: ls =>
    if l.col = col then
      match piece l.text with
      | .error e => .error e
      | .ok (.dash r) => do
        let (x, ls) ← node n (col + 1) (push (col + 1) r ls)
        let (xs, ls) ← entries n col ls
        return (x :: xs, ls)
      | .ok _ => .ok ([], l :: ls)
    else .ok ([], l :: ls)
  termination_by structural n => n

/-- The value of a key in column `col`: what stands after the colon, or the lines below. -/
def value : ℕ → ℕ → List Char → List Line → Except Verdict (Node × List Line)
  | 0, _, _, _ => .error .beyond
  | n + 1, col, after, ls =>
    if after.head?.all (· == '#') then
      if isEntry col ls then (entries n col ls).map fun (xs, ls) => (.seq xs, ls)
      else node n (col + 1) ls
    else
      match piece after with
      | .error e => .error e
      | .ok (.alone x) => finish (col + 1) x ls
      -- a block collection cannot start on the line of a key
      | .ok _ => .error .invalid
  termination_by structural n => n

/-- The entries of a mapping; no key is there twice. -/
def members : ℕ → ℕ → List Line → Except Verdict (List (Scalar × Node) × List Line)
  | 0, _, _ => .error .beyond
  | _ + 1, _, [] => .ok ([], [])
  | n + 1, col, l :: ls =>
    if l.col = col then
      match piece l.text with
      | .error e => .error e
      | .ok (.key k after) => do
        let (x, ls) ← value n col after ls
        let (ms, ls) ← members n col ls
        if k ∈ ms.map Prod.fst then .error .invalid else return ((k, x) :: ms, ls)
      | .ok _ => .ok ([], l :: ls)
    else .ok ([], l :: ls)
  termination_by structural n => n

end

/-- The node that a text is, read as YAML. -/
def read (text : List Char) : Except Verdict Node :=
  if (lines text).any Line.foreign then .error .beyond
  else
    match node (4 * text.length + 4) 0 (lines text) with
    | .error e => .error e
    | .ok (x, []) => .ok x
    | .ok (_, _ :: _) => .error .invalid

/-! ## Nodes that are JSON -/

section Json

variable {N : Type} (number : ℚ → N)

/-- The JSON value of a scalar; `number` says how a decimal is taken. -/
def Scalar.json? : Scalar → Option (Json N)
  | .null => some .null
  | .bool b => some (.bool b)
  | .num q => some (.num (number q))
  | .inf _ => none
  | .nan => none
  | .str s => some (.str s)

mutual

/-- The JSON value of a node, if it has one: all keys must be strings. -/
def Node.json? : Node → Option (Json N)
  | .scalar s => s.json? number
  | .seq items => (jsonItems? items).map .arr
  | .map ms => (jsonMembers? ms).map .obj
  termination_by structural x => x

/-- `Node.json?` on items. -/
def jsonItems? : List Node → Option (List (Json N))
  | [] => some []
  | x :: xs => do
    let v ← x.json?
    let vs ← jsonItems? xs
    return v :: vs
  termination_by structural xs => xs

/-- `Node.json?` on members. -/
def jsonMembers? : List (Scalar × Node) → Option (List (String × Json N))
  | [] => some []
  | (.str k, x) :: ms => do
    let v ← x.json?
    let vs ← jsonMembers? ms
    return (k, v) :: vs
  | _ :: _ => none
  termination_by structural ms => ms

end

end Json

/-! ## The steps of the reader -/

/-- The next line, if any, is to the left of a column. -/
def Below (col : ℕ) (ls : List Line) : Prop := ∀ l ∈ ls.head?, l.col < col

/-- The next line, if any, ends a collection in this column: it is in another one, or it is a node on
    its own. -/
def Ends (col : ℕ) (ls : List Line) : Prop :=
  ∀ l ∈ ls.head?, l.col ≠ col ∨ ∃ x, piece l.text = .ok (.alone x)

theorem Below.mono {col col' : ℕ} {ls : List Line} (h : Below col ls) (hle : col ≤ col') :
    Below col' ls := by
  intro l hl
  have := h l hl
  omega

theorem Below.ends {col : ℕ} {ls : List Line} (h : Below col ls) : Ends col ls := by
  intro l hl
  have := h l hl
  exact .inl (by omega)

section Steps

variable {n least col : ℕ} {l : Line} {ls : List Line} {x : Node} {r after : List Char} {k : Scalar}

theorem finish_below (h : Below least ls) : finish least x ls = .ok (x, ls) := by
  cases ls with
  | nil => rfl
  | cons l ls =>
    have hlt := h l rfl
    rw [finish, if_neg (by omega)]

/-- Without a line the node is null. -/
theorem node_none (h : Below least ls) : node (n + 1) least ls = .ok (.scalar .null, ls) := by
  cases ls with
  | nil => rfl
  | cons l ls => rw [node, if_pos (h l rfl)]

/-- A scalar on a line of its own, -/
theorem node_alone (hle : least ≤ l.col) (hp : piece l.text = .ok (.alone x))
    (h : Below least ls) : node (n + 1) least (l :: ls) = .ok (x, ls) := by
  rw [node, if_neg (by omega), hp]
  exact finish_below h

/-- a sequence, -/
theorem node_dash (hle : least ≤ l.col) (hp : piece l.text = .ok (.dash r)) :
    node (n + 1) least (l :: ls) =
      (entries n l.col (l :: ls)).map fun p => (.seq p.1, p.2) := by
  rw [node, if_neg (by omega), hp]

/-- a mapping. -/
theorem node_key (hle : least ≤ l.col) (hp : piece l.text = .ok (.key k after)) :
    node (n + 1) least (l :: ls) =
      (members n l.col (l :: ls)).map fun p => (.map p.1, p.2) := by
  rw [node, if_neg (by omega), hp]

theorem entries_ends (h : Ends col ls) : entries (n + 1) col ls = .ok ([], ls) := by
  cases ls with
  | nil => rfl
  | cons l ls =>
    rw [entries]
    by_cases hcol : l.col = col
    · obtain ⟨x, hx⟩ := (h l rfl).resolve_left (not_not.mpr hcol)
      rw [if_pos hcol, hx]
    · rw [if_neg hcol]

/-- One entry and the others, -/
theorem entries_cons (hp : piece l.text = .ok (.dash r)) {x : Node} {ls' : List Line}
    (hx : node n (l.col + 1) (push (l.col + 1) r ls) = .ok (x, ls')) :
    entries (n + 1) l.col (l :: ls) = (entries n l.col ls').map fun p => (x :: p.1, p.2) := by
  rw [entries, if_pos rfl, hp]
  simp only [hx]
  show (entries n l.col ls' >>= fun p => .ok (x :: p.1, p.2)) = _
  cases entries n l.col ls' <;> rfl

theorem members_ends (h : Ends col ls) : members (n + 1) col ls = .ok ([], ls) := by
  cases ls with
  | nil => rfl
  | cons l ls =>
    rw [members]
    by_cases hcol : l.col = col
    · obtain ⟨x, hx⟩ := (h l rfl).resolve_left (not_not.mpr hcol)
      rw [if_pos hcol, hx]
    · rw [if_neg hcol]

/-- one member and the others. -/
theorem members_cons (hp : piece l.text = .ok (.key k after)) {x : Node} {ls' ls'' : List Line}
    {ms : List (Scalar × Node)} (hx : value n l.col after ls = .ok (x, ls'))
    (hms : members n l.col ls' = .ok (ms, ls'')) (hk : k ∉ ms.map Prod.fst) :
    members (n + 1) l.col (l :: ls) = .ok ((k, x) :: ms, ls'') := by
  rw [members, if_pos rfl, hp]
  simp only [hx]
  show (members n l.col ls' >>= fun p =>
    if k ∈ p.1.map Prod.fst then .error .invalid else .ok ((k, x) :: p.1, p.2)) = _
  rw [hms]
  show (if k ∈ ms.map Prod.fst then Except.error Verdict.invalid else .ok ((k, x) :: ms, ls'')) = _
  rw [if_neg hk]

/-- A value on the line of its key. -/
theorem value_inline (hafter : after.head?.all (· == '#') = false)
    (hp : piece after = .ok (.alone x)) (h : Below (col + 1) ls) :
    value (n + 1) col after ls = .ok (x, ls) := by
  rw [value, if_neg (by rw [hafter]; exact Bool.false_ne_true), hp]
  exact finish_below h

/-- A value on the lines below its key. -/
theorem value_nested (h : isEntry col ls = false) :
    value (n + 1) col [] ls = node n (col + 1) ls := by
  have hnil : ([] : List Char).head?.all (· == '#') = true := rfl
  rw [value, if_pos hnil, if_neg (by rw [h]; exact Bool.false_ne_true)]

end Steps

/-! ## Texts and lines -/

/-- A line that can be told from its text: it starts with what is neither white space nor a hash, and
    has no line break in it. -/
structure Line.Solid (l : Line) : Prop where
  start : ∃ c cs, l.text = c :: cs ∧ isWhite c = false ∧ c ≠ '#'
  noBreak : ∀ c ∈ l.text, c ≠ '\n' ∧ c ≠ '\r'

theorem toLine_append {cs : List Char} (h : ∀ c ∈ cs.head?, c ≠ ' ') (col : ℕ) :
    toLine (List.replicate col ' ' ++ cs) = ⟨col, cs⟩ := by
  have hspaces : ∀ c ∈ List.replicate col ' ', (c == ' ') = true := by
    intro c hc
    rw [eq_of_mem_replicate hc]
    rfl
  have hstop : cs.takeWhile (· == ' ') = [] ∧ cs.dropWhile (· == ' ') = cs := by
    cases cs with
    | nil => exact ⟨rfl, rfl⟩
    | cons c cs =>
      have hc := h c rfl
      exact ⟨takeWhile_cons_of_neg (by simpa using hc),
        dropWhile_cons_of_neg (by simpa using hc)⟩
  rw [toLine, takeWhile_append_of_pos hspaces, dropWhile_append_of_pos hspaces, hstop.1,
    hstop.2, append_nil, length_replicate]

theorem Line.Solid.head {l : Line} (h : l.Solid) : ∀ c ∈ l.text.head?, c ≠ ' ' := by
  obtain ⟨c, cs, htext, hwhite, -⟩ := h.start
  rw [htext]
  intro d hd
  have hcd : c = d := Option.some.inj hd
  rintro rfl
  rw [hcd] at hwhite
  exact absurd hwhite (by decide)

theorem Line.Solid.hasContent {l : Line} (h : l.Solid) : l.hasContent = true := by
  obtain ⟨c, cs, htext, hwhite, hhash⟩ := h.start
  rw [Line.hasContent, htext]
  simp [hwhite, hhash]

theorem Line.Solid.toLine_raw {l : Line} (h : l.Solid) : toLine l.raw = l :=
  toLine_append h.head l.col

/-- A line that starts with something is read, unless it is a document marker. -/
theorem Line.Solid.not_foreign {l : Line} (h : l.Solid)
    (hmarker : l.col = 0 → isMarker l.text = false) : l.foreign = false := by
  have hreturn : l.text.contains '\r' = false := by
    by_contra hmem
    rw [Bool.not_eq_false, contains_iff_mem] at hmem
    exact (h.noBreak _ hmem).2 rfl
  rw [Line.foreign, hreturn, Bool.false_or, Bool.and_eq_false_imp]
  intro hcol
  exact hmarker (beq_iff_eq.mp hcol)

/-- What follows a dash and a space is a line of its own. -/
theorem push_solid {col : ℕ} {t : List Char} (h : (Line.mk (col + 1) t).Solid) (ls : List Line) :
    push col (' ' :: t) ls = ⟨col + 1, t⟩ :: ls := by
  have hline : toLine (' ' :: t) = ⟨1, t⟩ := toLine_append h.head 1
  rw [push, hline]
  simp only
  rw [if_pos h.hasContent]

/-- The first line, and the others. -/
theorem textOf_cons (l : Line) {ls : List Line} (hne : ls ≠ []) :
    textOf (l :: ls) = l.raw ++ '\n' :: textOf ls := by
  have hne' : ls.map Line.raw ≠ [] := by
    simpa using hne
  rw [textOf, map_cons, intercalate_cons_of_ne_nil hne', append_assoc]
  rfl

/-- What the first line starts with. -/
theorem textOf_head (col : ℕ) (a b : List Char) (ls : List Line) :
    textOf (⟨col, a ++ b⟩ :: ls) = List.replicate col ' ' ++ (a ++ textOf (⟨0, b⟩ :: ls)) := by
  have hraw : ∀ c cs, (Line.mk c cs).raw = List.replicate c ' ' ++ cs := fun _ _ => rfl
  cases ls with
  | nil =>
    simp only [textOf, map_singleton, intercalate_singleton, hraw]
    rfl
  | cons l ls =>
    rw [textOf_cons _ (cons_ne_nil l ls), textOf_cons _ (cons_ne_nil l ls), hraw, hraw]
    simp only [append_assoc, replicate_zero, nil_append]

theorem textOf_append {ls ms : List Line} (hls : ls ≠ []) (hms : ms ≠ []) :
    textOf (ls ++ ms) = textOf ls ++ '\n' :: textOf ms := by
  induction ls with
  | nil => exact absurd rfl hls
  | cons l ls ih =>
    cases ls with
    | nil =>
      rw [singleton_append, textOf_cons l hms, textOf, textOf, map_singleton,
        intercalate_singleton]
    | cons l' ls =>
      have hne : l' :: ls ++ ms ≠ [] := cons_ne_nil _ _
      rw [cons_append, textOf_cons l hne, ih (cons_ne_nil _ _),
        textOf_cons l (cons_ne_nil _ _), append_assoc]
      rfl

/-- Texts that are joined are the text of all their lines. -/
theorem textOf_flatMap {α : Type} {t : α → List Char} {f : α → List Line} (xs : List α)
    (h : ∀ x ∈ xs, f x ≠ [] ∧ t x = textOf (f x)) :
    ['\n'].intercalate (xs.map t) = textOf (xs.flatMap f) := by
  induction xs with
  | nil => rfl
  | cons x xs ih =>
    obtain ⟨⟨hne, hx⟩, hxs⟩ := forall_mem_cons.mp h
    cases xs with
    | nil =>
      rw [map_singleton, intercalate_singleton, flatMap_singleton]
      exact hx
    | cons y ys =>
      have hrest : (y :: ys).flatMap f ≠ [] := by
        rw [flatMap_cons]
        exact append_ne_nil_of_left_ne_nil (hxs y (mem_cons_self ..)).1 _
      have hmap : (y :: ys).map t ≠ [] := cons_ne_nil _ _
      have happend : (x :: y :: ys).flatMap f = f x ++ (y :: ys).flatMap f := flatMap_cons
      rw [map_cons, intercalate_cons_of_ne_nil hmap, ih hxs, hx, happend,
        textOf_append hne hrest, append_assoc]
      rfl

/-- The text splits into its lines. -/
theorem splitOn_textOf {ls : List Line} (hne : ls ≠ []) (h : ∀ l ∈ ls, l.Solid) :
    (textOf ls).splitOn '\n' = ls.map Line.raw := by
  have hbreak : ∀ t ∈ ls.map Line.raw, '\n' ∉ t := by
    intro t ht
    obtain ⟨l, hl, rfl⟩ := mem_map.mp ht
    intro hmem
    rcases mem_append.mp hmem with hmem | hmem
    · exact absurd (eq_of_mem_replicate hmem) (by decide)
    · exact ((h l hl).noBreak _ hmem).1 rfl
  have hne' : ls.map Line.raw ≠ [] := by
    simpa using hne
  rw [textOf, splitOn_intercalate _ hbreak hne']

/-- **The lines of a text.** -/
theorem lines_textOf {ls : List Line} (hne : ls ≠ []) (h : ∀ l ∈ ls, l.Solid) :
    lines (textOf ls) = ls := by
  have hlines : (ls.map Line.raw).map toLine = ls := by
    rw [map_map]
    exact (map_congr_left fun l hl => (h l hl).toLine_raw).trans (map_id _)
  rw [lines, splitOn_textOf hne h, hlines]
  exact filter_eq_self.mpr fun l hl => (h l hl).hasContent

/-- What follows the colon after a key does not make a document marker of it. -/
theorem isMarker_key (k r : List Char) : isMarker (k ++ ':' :: r) = isMarker (k ++ [':']) := by
  -- a marker has three characters, so the key is at least that long
  rcases k with _ | ⟨a, _ | ⟨b, _ | ⟨c, k⟩⟩⟩
  · simp [isMarker]
  · simp [isMarker]
  · simp [isMarker]
  · have hends : ends (k ++ ':' :: r) = ends (k ++ [':']) := by
      cases k <;> rfl
    simp [isMarker, hends]

/-- How much there is to read. -/
def weight (ls : List Line) : ℕ := (ls.map fun l => l.text.length + 1).sum

theorem weight_cons (l : Line) (ls : List Line) :
    weight (l :: ls) = l.text.length + 1 + weight ls := by
  simp [weight]

theorem weight_append (ls ms : List Line) : weight (ls ++ ms) = weight ls + weight ms := by
  simp [weight]

/-- A text is as long as what there is to read. -/
theorem weight_le (ls : List Line) :
    weight ls ≤ (textOf ls).length + 1 := by
  induction ls with
  | nil => exact Nat.zero_le _
  | cons l ls ih =>
    have hraw : l.text.length ≤ l.raw.length := by
      rw [Line.raw, length_append]
      omega
    cases ls with
    | nil =>
      rw [textOf, map_singleton, intercalate_singleton]
      simp only [weight, map_singleton, sum_singleton]
      omega
    | cons m ms =>
      rw [weight_cons, textOf_cons l (cons_ne_nil m ms), length_append, length_cons]
      omega

section Read

variable {text : List Char} {ls : List Line} (hlines : lines text = ls)
  (hforeign : ∀ l ∈ ls, l.foreign = false) {x : Node}

include hlines hforeign

theorem not_foreign : (lines text).any Line.foreign = false := by
  rw [hlines, any_eq_false]
  intro l hl
  rw [hforeign l hl]
  exact Bool.false_ne_true

/-- **A text whose lines are all taken** is the node that they are. -/
theorem read_taken (hnode : node (4 * text.length + 4) 0 ls = .ok (x, [])) : read text = .ok x := by
  rw [read, not_foreign hlines hforeign, if_neg Bool.false_ne_true, hlines, hnode]

/-- **A line that is left over** makes the text invalid. -/
theorem read_left {l : Line} {rest : List Line}
    (hnode : node (4 * text.length + 4) 0 ls = .ok (x, l :: rest)) :
    read text = .error .invalid := by
  rw [read, not_foreign hlines hforeign, if_neg Bool.false_ne_true, hlines, hnode]

end Read

end Yaml
