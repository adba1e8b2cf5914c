/-
  Does a snapshot survive `snapshot export --format yaml`?

  * **`toYAML_reads_back_iff`** — for every JSON value: the text denotes the value, lines are
    indented deeper than their key and keys read back, IFF no array or object that is the value of a
    key is empty, every number is finite and every key is readable where it is printed.
    `{"rules": []}`, `{"true": null}` and `[1e400]` do not come back.
-/
import FalseFlag.Cli.ReadYaml
import FalseFlag.Lib.YamlKey

namespace FalseFlag.Cli

open List Binary Ecma JsonTree Json Yaml Option

section RoundTrip

variable [NumberText]

/-! ## Texts and values -/

/-- A JSON value as JavaScript holds it: each name once in an object, and the numbers that
    `JSON.parse` gives. -/
structure JsonValue where
  tree : Json Number
  noDup : tree.NoDup
  numbers : Everywhere IsNumber (fun _ _ => True) tree

/-- The text, read as YAML, denotes the value. -/
def Denotes (text : List Char) (v : Json Number) : Prop :=
  ∃ x w, Yaml.read text = .ok x ∧ x.json? toNumber = some w ∧ Same w v

/-- **With readable keys**, the text denotes the value if all its numbers are finite, and is no YAML
    at all if a member is empty. -/
theorem denotes_toYAML (v : JsonValue) (hkeys : ReadableKeys 0 false v.tree) :
    (NoEmptyMember v.tree → (Denotes (toYAML 0 v.tree) v.tree ↔ Finite v.tree)) ∧
      (¬ NoEmptyMember v.tree → Yaml.read (toYAML 0 v.tree) = .error .invalid) := by
  have hv : Readable v.tree := readable_of v.numbers hkeys
  obtain ⟨hgood, hbad⟩ := read_printed hv hkeys v.noDup (lines_toYAML hv hkeys) (weight_toYAML hkeys)
  obtain ⟨w, hw, hback⟩ := json_nodeOf v.tree hv v.noDup
  refine ⟨fun h => ⟨?_, ?_⟩, hbad⟩
  · rintro ⟨x, w', hread, hw', hsame⟩
    rw [hgood h] at hread
    injection hread with hx
    rw [← hx, hw] at hw'
    exact finite_of_same v.tree v.noDup w hback (some.inj hw' ▸ hsame)
  · intro hfinite
    rw [readBack_of_finite v.tree hfinite] at hback
    exact ⟨nodeOf v.tree, w, hgood h, hw, hback⟩

/-! ## Keys -/

/-- The line of a key, as it stands in the text.  At the start of an item of an array, the white
    space in front is cut off and the line follows a dash. -/
def keyLine (indent : ℕ) (first : Bool) (m : String × Json Number) : Line :=
  let text := memberText indent m.1 (isObject m.2) (toYAML (indent + 1) m.2)
  toLine ((if first then trimStart text else text).takeWhile (· != '\n'))

/-- **The key reads back as the same string**, from the text of its member. -/
def KeyReadsBack (indent : ℕ) (first : Bool) (m : String × Json Number) : Prop :=
  (first = false → (keyLine indent first m).foreign = false) ∧
    ∃ after, piece (keyLine indent first m).text = .ok (.key (.str m.1) after)

/-- All keys read back as the same string, from where they stand in the text. -/
abbrev KeysReadBack : Json Number → Prop := Keys KeyReadsBack 0 false

/-- The white space that is not read as part of a key. -/
def isCut (first : Bool) (c : Char) : Bool := if first then isWhiteSpace c else c == ' '

omit [NumberText] in
theorem isCut_colon (first : Bool) : isCut first ':' = false := by
  cases first <;> decide

/-- What follows the colon on the line of a key. -/
def valueText (indent : ℕ) (m : String × Json Number) : List Char :=
  if isObject m.2 then [] else ' ' :: toYAML (indent + 1) m.2

theorem ends_valueText (indent : ℕ) (m : String × Json Number) :
    ends (valueText indent m) = true := by
  rw [valueText]
  split
  · rfl
  · rfl

theorem noBreak_valueText (indent : ℕ) (m : String × Json Number) :
    ∀ c ∈ valueText indent m, c ≠ '\n' ∧ c ≠ '\r' := by
  rw [valueText]
  split
  · exact fun _ h => by cases h
  · rename_i hobj
    have hleaf := leaf_of_not_object (Bool.eq_false_of_not_eq_true hobj)
    exact forall_mem_cons.mpr ⟨by decide, (firm_leaf hleaf (indent + 1)).noBreak⟩

omit [NumberText] in
theorem dropWhile_key {p : Char → Bool} (hp : p ':' = false) (k r : List Char) :
    (k ++ ':' :: r).dropWhile p = k.dropWhile p ++ ':' :: r := by
  induction k with
  | nil => exact dropWhile_cons_of_neg (by rw [hp]; exact Bool.false_ne_true)
  | cons c k ih =>
    rw [cons_append, dropWhile_cons, dropWhile_cons]
    split
    · exact ih
    · rfl

omit [NumberText] in
theorem dropWhile_takeWhile {p q : Char → Bool} (h : ∀ c, p c = true → q c = true) (cs : List Char) :
    (cs.takeWhile q).dropWhile p = (cs.dropWhile p).takeWhile q := by
  induction cs with
  | nil => rfl
  | cons c cs ih =>
    by_cases hp : p c = true
    · rw [takeWhile_cons_of_pos (h c hp), dropWhile_cons_of_pos hp,
        dropWhile_cons_of_pos hp, ih]
    · rw [dropWhile_cons_of_neg hp, takeWhile_cons]
      split
      · exact dropWhile_cons_of_neg hp
      · rfl

section Line

variable (indent : ℕ) (m : String × Json Number)

/-- The rest of the text of a member, behind the colon. -/
abbrev restText : List Char := (if isObject m.2 then '\n' else ' ') :: toYAML (indent + 1) m.2

theorem takeWhile_key {k : List Char} (hk : '\n' ∉ k) :
    (k ++ ':' :: restText indent m).takeWhile (· != '\n') = k ++ ':' :: valueText indent m := by
  have hpos : ∀ c ∈ k, (c != '\n') = true := by
    intro c hc
    rw [bne_iff_ne]
    rintro rfl
    exact hk hc
  rw [takeWhile_append_of_pos hpos, takeWhile_cons_of_pos (by decide), restText, valueText]
  rcases hobj : isObject m.2 with _ | _
  · have hline : (toYAML (indent + 1) m.2).takeWhile (· != '\n') = toYAML (indent + 1) m.2 :=
      takeWhile_eq_self_iff.mpr fun c hc => bne_iff_ne.mpr
        ((firm_leaf (leaf_of_not_object hobj) (indent + 1)).noBreak c hc).1
    rw [if_neg Bool.false_ne_true, if_neg Bool.false_ne_true,
      takeWhile_cons_of_pos (by decide), hline]
  · rfl

/-- **The line of a key**, without the white space in front. -/
theorem keyLine_text (first : Bool) : (keyLine indent first m).text =
    (m.1.toList.dropWhile (isCut first) ++ ':' :: restText indent m).takeWhile (· != '\n') := by
  have hspace : ∀ c, (c == ' ') = true → (c != '\n') = true := by
    intro c hc
    rw [beq_iff_eq.mp hc]
    decide
  have htext : memberText indent m.1 (isObject m.2) (toYAML (indent + 1) m.2) =
      List.replicate (2 * indent) ' ' ++ (m.1.toList ++ ':' :: restText indent m) := rfl
  have hpad : ∀ c ∈ List.replicate (2 * indent) ' ', (c == ' ') = true :=
    fun c hc => beq_iff_eq.mpr (eq_of_mem_replicate hc)
  rw [keyLine, htext]
  show List.dropWhile (· == ' ') (List.takeWhile (· != '\n') (if first then _ else _)) = _
  rw [dropWhile_takeWhile hspace]
  cases first with
  | false =>
    rw [if_neg Bool.false_ne_true, dropWhile_append_of_pos hpad, dropWhile_key (by decide)]
    rfl
  | true =>
    rw [if_pos rfl, trimStart_replicate]
    show List.takeWhile _ (List.dropWhile _ (List.dropWhile isWhiteSpace _)) = _
    rw [dropWhile_key (by decide), dropWhile_key (by decide)]
    have hstop : (m.1.toList.dropWhile isWhiteSpace).dropWhile (· == ' ') =
        m.1.toList.dropWhile isWhiteSpace := by
      rcases hrest : m.1.toList.dropWhile isWhiteSpace with _ | ⟨c, cs⟩
      · rfl
      · have hc := isWhiteSpace_trimStart hrest
        refine dropWhile_cons_of_neg fun hblank => ?_
        rw [beq_iff_eq.mp hblank] at hc
        exact absurd hc (by decide)
    rw [hstop]
    rfl

/-- Where nothing is cut off in front of a key, its line starts with it. -/
theorem keyLine_eq (hbreak : '\n' ∉ m.1.toList) (hspace : ∀ c ∈ m.1.toList.head?, c ≠ ' ') :
    keyLine indent false m = ⟨2 * indent, m.1.toList ++ ':' :: valueText indent m⟩ := by
  have hpad : ∀ c ∈ List.replicate (2 * indent) ' ', (c != '\n') = true := by
    intro c hc
    rw [eq_of_mem_replicate hc]
    decide
  show toLine (List.takeWhile _ (List.replicate (2 * indent) ' ' ++
    (m.1.toList ++ ':' :: restText indent m))) = _
  rw [takeWhile_append_of_pos hpad, takeWhile_key indent m hbreak]
  apply toLine_append
  intro c hc
  cases hk : m.1.toList with
  | nil =>
    rw [hk] at hc
    have hcolon : ':' = c := some.inj hc
    rw [← hcolon]
    decide
  | cons d ds =>
    rw [hk] at hc hspace
    exact hspace c hc

end Line

omit [NumberText] in
theorem length_takeWhile_lt {k : List Char} (h : '\n' ∈ k) (r : List Char) :
    ((k ++ r).takeWhile (· != '\n')).length < k.length := by
  induction k with
  | nil => cases h
  | cons c k ih =>
    by_cases hc : c = '\n'
    · rw [cons_append, takeWhile_cons_of_neg (by simp [hc])]
      exact Nat.zero_lt_succ _
    · rw [cons_append, takeWhile_cons_of_pos (by simp [hc])]
      exact Nat.succ_lt_succ (ih (mem_of_ne_of_mem (Ne.symm hc) h))

omit [NumberText] in
theorem dropWhile_of_head {p : Char → Bool} {cs : List Char} (h : ∀ c ∈ cs.head?, p c = false) :
    cs.dropWhile p = cs := by
  cases cs with
  | nil => rfl
  | cons c cs =>
    exact dropWhile_cons_of_neg (by rw [h c rfl]; exact Bool.false_ne_true)

omit [NumberText] in
theorem noBreak_of_plainKey {k : List Char} (h : PlainKey k) : '\n' ∉ k :=
  fun hmem => absurd (h.chars _ hmem) (by decide)

omit [NumberText] in
/-- Nothing is cut off a readable key. -/
theorem isCut_of_readableKey {indent : ℕ} {first : Bool} {k : String}
    (h : ReadableKey indent first k) : ∀ c ∈ k.toList.head?, isCut first c = false := by
  intro c hc
  cases first with
  | true => exact h.noSpace rfl c hc
  | false =>
    obtain ⟨d, ds, hk, hstart⟩ := h.plain.start
    rw [hk] at hc
    have hdc : d = c := some.inj hc
    rw [plainStart, Bool.and_eq_true] at hstart
    refine beq_eq_false_iff_ne.mpr ?_
    rintro rfl
    rw [hdc] at hstart
    exact absurd hstart.1 (by decide)

/-- **A key that reads back from its line** is a plain scalar, and nothing was cut off it. -/
theorem plainKey_of_keyLine {indent : ℕ} {first : Bool} {m : String × Json Number}
    {after : List Char} (h : piece (keyLine indent first m).text = .ok (.key (.str m.1) after)) :
    (∀ c ∈ m.1.toList.head?, isCut first c = false) ∧ PlainKey m.1.toList := by
  have hlen := length_le_of_piece h
  rw [keyLine_text] at h hlen
  have hbreak : '\n' ∉ m.1.toList.dropWhile (isCut first) := by
    intro hmem
    have hline := length_takeWhile_lt hmem (':' :: restText indent m)
    have hback := (dropWhile_suffix (isCut first) (l := m.1.toList)).length_le
    omega
  rw [takeWhile_key indent m hbreak] at h
  have hk : m.1.toList = m.1.toList.takeWhile (isCut first) ++ m.1.toList.dropWhile (isCut first) :=
    takeWhile_append_dropWhile.symm
  have hhead : ∀ d ∈ (m.1.toList.dropWhile (isCut first) ++ ':' :: valueText indent m).head?,
      isCut first d = false := by
    intro d hd
    rw [head?_append] at hd
    have hback := head?_dropWhile_not (isCut first) m.1.toList
    rcases hc : (m.1.toList.dropWhile (isCut first)).head? with _ | c
    · rw [hc] at hd
      rw [← some.inj hd]
      exact isCut_colon first
    · rw [hc] at hd hback
      rw [← some.inj hd]
      exact hback
  have hfront := front_eq_nil hk
    (fun hmem => absurd (mem_takeWhile_imp hmem) (by rw [isCut_colon]; exact Bool.false_ne_true))
    h fun c hc d hd => by
      rintro rfl
      exact absurd (mem_takeWhile_imp hc) (by rw [hhead c hd]; exact Bool.false_ne_true)
  rw [hfront, nil_append] at hk
  rw [← hk] at h hhead
  refine ⟨?_, plainKey_of_piece h⟩
  intro c hc
  apply hhead c
  rw [head?_append, mem_def.mp hc]
  rfl

/-- **What a key must be to read back where it stands**, and no more than that: `toYAML` asks for
    none of it. -/
theorem keyReadsBack_iff (indent : ℕ) (first : Bool) (m : String × Json Number) :
    KeyReadsBack indent first m ↔ ReadableKey indent first m.1 := by
  constructor
  · rintro ⟨hforeign, after, hpiece⟩
    obtain ⟨hcut, hplain⟩ := plainKey_of_keyLine hpiece
    refine ⟨hplain, ?_, ?_⟩
    · rintro rfl rfl
      have hline := hforeign rfl
      rw [keyLine_eq 0 m (noBreak_of_plainKey hplain) fun c hc => ?_] at hline
      · rw [Line.foreign, Bool.or_eq_false_iff] at hline
        rw [← isMarker_key]
        exact hline.2
      · rintro rfl
        exact absurd (hcut ' ' hc) (by decide)
    · rintro rfl c hc
      exact hcut c hc
  · intro hkey
    have hbreak := noBreak_of_plainKey hkey.plain
    have hcut := isCut_of_readableKey hkey
    have htext : (keyLine indent first m).text = m.1.toList ++ ':' :: valueText indent m := by
      rw [keyLine_text, dropWhile_of_head hcut, takeWhile_key indent m hbreak]
    refine ⟨?_, (valueText indent m).dropWhile isWhite, ?_⟩
    · rintro rfl
      have hsolid := solid_key hkey.plain (noBreak_valueText indent m) (2 * indent)
      rw [keyLine_eq indent m hbreak fun c hc => ?_]
      · refine hsolid.not_foreign fun hcol => ?_
        have hindent : indent = 0 := by
          have hcol : 2 * indent = 0 := hcol
          omega
        rw [isMarker_key]
        exact hkey.noMarker hindent rfl
      · rintro rfl
        exact absurd (hcut ' ' hc) (by decide)
    · rw [htext]
      exact piece_key hkey.plain (ends_valueText indent m)

/-! ## The round trip -/

end RoundTrip

/-! ### Values that read back, and values that do not -/

/-- The numbers of these values are written with all their digits. -/
instance : NumberText := .exact

/-- `{"o": {"--- a": [0.25]}}`: what would be a document marker in column 0 is none further right. -/
def plainSnapshot : JsonValue where
  tree := .obj [("o", .obj [("--- a", .arr [.num (.finite (1 / 4))])])]
  noDup := .obj (by decide) (forall_mem_singleton.mpr (.obj (by decide)
    (forall_mem_singleton.mpr (.arr (forall_mem_singleton.mpr (.num _))))))
  numbers := .obj (fun _ _ => trivial) (forall_mem_singleton.mpr (.obj (fun _ _ => trivial)
    (forall_mem_singleton.mpr (.arr (forall_mem_singleton.mpr
      (.num ⟨by decide +kernel, by decide +kernel⟩))))))

/-- `{"rules": []}`. -/
def emptyRules : JsonValue where
  tree := .obj [("rules", .arr [])]
  noDup := .obj (by decide) (forall_mem_singleton.mpr (.arr fun _ h => by cases h))
  numbers := .obj (fun _ _ => trivial)
    (forall_mem_singleton.mpr (.arr fun _ h => by cases h))

/-- `{"true": null}`. -/
def trueKey : JsonValue where
  tree := .obj [("true", .null)]
  noDup := .obj (by decide) (forall_mem_singleton.mpr .null)
  numbers := .obj (fun _ _ => trivial) (forall_mem_singleton.mpr .null)

/-- `[1e400]`, which `JSON.parse` makes `[Infinity]`. -/
def infinityItem : JsonValue where
  tree := .arr [.num (.infinity false)]
  noDup := .arr (forall_mem_singleton.mpr (.num _))
  numbers := .arr (forall_mem_singleton.mpr (.num trivial))

end FalseFlag.Cli
