/-
  The literals of cel-lite (js/packages/sdk-js/src/cel-lite.ts) against those of CEL.

  What a literal means in CEL is said here by CEL's own grammar: `CelBody` relates the text between
  two quotes to the string it stands for, and `celNumber` gives the number that a run of digits and
  dots stands for, if it is one.  The lexer of cel-lite drops the backslash of every escape, and
  hands every run of digits and dots to `Number`.  So

  * **`faithful_iff`** — what `tokenize` returns is what CEL reads in the source exactly if, in
    every quoted text, a backslash escapes nothing but itself, a quote, a backquote or a question
    mark, and no line ends; and if every run of digits and dots is a decimal that `float64` has.
-/
import FalseFlag.CelLite.Lexer
import FalseFlag.Lib.Utf16

namespace FalseFlag.CelLite

open List Binary

/-! ## Strings in CEL -/

/-- The escapes of one letter, with what they stand for. -/
def celLetters : List (UInt16 × UInt16) :=
  [(code 'a', 7), (code 'b', 8), (code 'f', 12), (code 'n', 10), (code 'r', 13), (code 't', 9),
    (code 'v', 11), (code '\\', code '\\'), (code '?', code '?'), (code '"', code '"'),
    (code '\'', code '\''), (code '`', code '`')]

/-- How many hexadecimal digits an escape has. -/
def hexWidth (e : UInt16) : Option ℕ :=
  if e = code 'x' || e = code 'X' then some 2
  else if e = code 'u' then some 4
  else if e = code 'U' then some 8
  else none

/-- The value of a digit. -/
def digit? (u : UInt16) : Option ℕ :=
  if isDigit u then some (u.toNat - 48)
  else if code 'a' ≤ u && u ≤ code 'f' then some (u.toNat - 87)
  else if code 'A' ≤ u && u ≤ code 'F' then some (u.toNat - 55)
  else none

/-- The number that a list of digits denotes to a base. -/
def natIn? (base : ℕ) (digits : JsString) : Option ℕ :=
  digits.foldlM (fun n d => (digit? d).bind fun k => if k < base then some (base * n + k) else none) 0

/-- The text between two quotes, and the string that it is in CEL. -/
inductive CelBody : JsString → JsString → Prop
  | nil : CelBody [] []
  | unit {u : UInt16} {body value : JsString} : u ≠ backslash → u ≠ code '\n' → u ≠ code '\r' →
      CelBody body value → CelBody (u :: body) (u :: value)
  | letter {e u : UInt16} {body value : JsString} : (e, u) ∈ celLetters →
      CelBody body value → CelBody (backslash :: e :: body) (u :: value)
  | hex {e : UInt16} {digits body value : JsString} {c : Char} :
      hexWidth e = some digits.length → natIn? 16 digits = some c.toNat →
      CelBody body value → CelBody (backslash :: e :: (digits ++ body)) (Utf16.encode c ++ value)
  | octal {digits body value : JsString} {n : ℕ} : digits.length = 3 → natIn? 8 digits = some n →
      n < 256 → CelBody body value → CelBody (backslash :: (digits ++ body)) (UInt16.ofNat n :: value)

/-- No escape but of what stands for itself, and no end of line. -/
inductive PlainBody : JsString → Prop
  | nil : PlainBody []
  | unit {u : UInt16} {body : JsString} : u ≠ backslash → u ≠ code '\n' → u ≠ code '\r' →
      PlainBody body → PlainBody (u :: body)
  | escape {e : UInt16} {body : JsString} : e ∈ units "\\?\"'`" →
      PlainBody body → PlainBody (backslash :: e :: body)

/-- What an escape of one letter stands for is the letter itself, for these. -/
theorem mem_celLetters_self {e : UInt16} : (e, e) ∈ celLetters ↔ e ∈ units "\\?\"'`" := by
  constructor
  · intro h
    have hall : (celLetters.all fun x => x.2 ≠ x.1 || x.1 ∈ units "\\?\"'`") = true := by decide +kernel
    have he := all_eq_true.mp hall _ h
    simpa using he
  · intro h
    have hall : ((units "\\?\"'`").all fun e => (e, e) ∈ celLetters) = true := by decide +kernel
    exact of_decide_eq_true (all_eq_true.mp hall e h)

theorem digit?_backslash : digit? backslash = none := by decide

theorem foldlM_digits {base : ℕ} : ∀ {digits : JsString} {n m : ℕ},
    digits.foldlM (fun n d => (digit? d).bind fun k => if k < base then some (base * n + k) else none) n =
      some m → ∀ d ∈ digits, d ≠ backslash
  | [], _, _, _ => nofun
  | d :: digits, n, m, h => by
    rw [foldlM_cons] at h
    obtain ⟨n', hd, h⟩ := Option.bind_eq_some_iff.mp h
    refine forall_mem_cons.mpr ⟨?_, foldlM_digits h⟩
    rintro rfl
    rw [digit?_backslash] at hd
    nomatch hd

/-- A digit is no backslash. -/
theorem ne_of_natIn? {base n : ℕ} {digits : JsString} (h : natIn? base digits = some n) :
    ∀ d ∈ digits, d ≠ backslash := foldlM_digits h

theorem unescape_append {w : JsString} (h : ∀ u ∈ w, u ≠ backslash) (body : JsString) :
    unescape (w ++ body) = w ++ unescape body := by
  induction w with
  | nil => rfl
  | cons u w ih =>
    obtain ⟨hu, hw⟩ := forall_mem_cons.mp h
    rw [cons_append, unescape_unit hu, ih hw, cons_append]

/-- cel-lite keeps the digits of an escape. -/
theorem unescape_hex {e : UInt16} {digits : JsString} {n : ℕ} (h : natIn? 16 digits = some n)
    (body : JsString) :
    unescape (backslash :: e :: (digits ++ body)) = e :: (digits ++ unescape body) := by
  rw [unescape_escape, unescape_append (ne_of_natIn? h)]

theorem unescape_octal {digits : JsString} {n : ℕ} (hlen : digits.length = 3)
    (h : natIn? 8 digits = some n) (body : JsString) :
    unescape (backslash :: (digits ++ body)) = digits ++ unescape body := by
  obtain ⟨a, b, c, rfl⟩ := length_eq_three.mp hlen
  have hne := ne_of_natIn? h
  show unescape (backslash :: a :: ([b, c] ++ body)) = _
  rw [unescape_escape, unescape_append fun u hu => hne u (mem_cons_of_mem _ hu)]
  rfl

theorem length_encode (c : Char) : (Utf16.encode c).length ≤ 2 := by
  unfold Utf16.encode
  split
  · exact Nat.le_succ 1
  · exact Nat.le_refl 2

theorem two_le_hexWidth {e : UInt16} {n : ℕ} (h : hexWidth e = some n) : 2 ≤ n := by
  unfold hexWidth at h
  repeat' split at h
  all_goals
    cases h
    try decide

/-- The string that a text is in CEL is not longer than the one that cel-lite makes of it, -/
theorem CelBody.length_le {body value : JsString} (h : CelBody body value) :
    value.length ≤ (unescape body).length := by
  induction h with
  | nil => exact Nat.le_refl 0
  | unit hu _ _ _ ih =>
    rw [unescape_unit hu]
    exact Nat.succ_le_succ ih
  | letter _ _ ih =>
    rw [unescape_escape]
    exact Nat.succ_le_succ ih
  | @hex e digits body value c hwidth hdigits _ ih =>
    have hc := length_encode c
    have hlen := two_le_hexWidth hwidth
    rw [unescape_hex hdigits, length_cons, length_append, length_append]
    omega
  | octal hlen hdigits _ _ ih =>
    rw [unescape_octal hlen hdigits, length_cons, length_append]
    omega

/-- so that the two are the same only where nothing but plain units is escaped. -/
theorem CelBody.plain {body value : JsString} (h : CelBody body value) :
    value = unescape body → PlainBody body := by
  induction h with
  | nil => exact fun _ => .nil
  | unit hu hn hr _ ih =>
    intro heq
    rw [unescape_unit hu] at heq
    exact .unit hu hn hr (ih (List.cons.inj heq).2)
  | @letter e u body value hmem _ ih =>
    intro heq
    rw [unescape_escape] at heq
    obtain ⟨rfl, htail⟩ := List.cons.inj heq
    exact .escape (mem_celLetters_self.mp hmem) (ih htail)
  | @hex e digits body value c hwidth hdigits hbody _ =>
    intro heq
    have hc := length_encode c
    have hlen := two_le_hexWidth hwidth
    have hle := hbody.length_le
    have heq := congrArg List.length heq
    rw [unescape_hex hdigits, length_cons, length_append, length_append] at heq
    omega
  | octal hlen hdigits _ hbody _ =>
    intro heq
    have hle := hbody.length_le
    have heq := congrArg List.length heq
    rw [unescape_octal hlen hdigits, length_cons, length_append] at heq
    omega

theorem PlainBody.celBody {body : JsString} (h : PlainBody body) :
    CelBody body (unescape body) := by
  induction h with
  | nil => exact .nil
  | unit hu hn hr _ ih =>
    rw [unescape_unit hu]
    exact .unit hu hn hr ih
  | @escape e _ he _ ih =>
    rw [unescape_escape]
    exact .letter (mem_celLetters_self.mpr he) ih

/-- **A quoted text is to cel-lite what it is in CEL** exactly if it is plain. -/
theorem celBody_iff {body : JsString} : CelBody body (unescape body) ↔ PlainBody body :=
  ⟨fun h => h.plain rfl, PlainBody.celBody⟩

/-! ## Numbers in CEL -/

/-- The number that a run of digits and dots is in CEL: an `int` without a dot, a `double` with one
    and digits on both sides of it. -/
def celNumber (text : JsString) : Option ℚ :=
  match numeral? text with
  | none => none
  | some (whole, none) => if natOf whole < 2 ^ 63 then some (natOf whole) else none
  | some (whole, some fraction) =>
    if fraction = [] then none
    else if binary64.round (decimalOf whole fraction) < 2 ^ 1024 then
      some (binary64.round (decimalOf whole fraction))
    else none

/-- A decimal that `float64` has: an `int` exactly, a `double` after rounding. -/
def PlainNumeral (text : JsString) : Prop :=
  match numeral? text with
  | none => False
  | some (whole, none) => natOf whole < 2 ^ 63 ∧ binary64.round (natOf whole) = natOf whole
  | some (whole, some fraction) =>
    fraction ≠ [] ∧ binary64.round (decimalOf whole fraction) < 2 ^ 1024

theorem decimalOf_nil (whole : JsString) : decimalOf whole [] = natOf whole := by
  rw [decimalOf, append_nil, length_nil, pow_zero, div_one]

theorem Number.round_eq_finite {q q' : ℚ} :
    Number.round q = .finite q' ↔ binary64.round q < 2 ^ 1024 ∧ binary64.round q = q' := by
  unfold Number.round
  split
  · rename_i h
    exact ⟨fun heq => ⟨h, Number.finite.inj heq⟩, fun heq => congrArg _ heq.2⟩
  · rename_i h
    exact ⟨nofun, fun heq => absurd heq.1 h⟩

/-- **A run of digits and dots is to cel-lite what it is in CEL** exactly if it is plain. -/
theorem celNumber_iff {text : JsString} :
    (∃ q, celNumber text = some q ∧ Number.ofText text = .finite q) ↔ PlainNumeral text := by
  unfold celNumber Number.ofText PlainNumeral
  rcases numeral? text with _ | ⟨whole, _ | fraction⟩
  · exact ⟨fun ⟨_, h, _⟩ => (nomatch h), False.elim⟩
  · show (∃ q, (if natOf whole < 2 ^ 63 then some (natOf whole : ℚ) else none) = some q ∧
      Number.round (decimalOf whole []) = .finite q) ↔ _
    rw [decimalOf_nil]
    constructor
    · rintro ⟨q, hcel, hjs⟩
      split at hcel
      · rename_i hlt
        cases hcel
        exact ⟨hlt, (Number.round_eq_finite.mp hjs).2⟩
      · nomatch hcel
    · rintro ⟨hlt, hround⟩
      refine ⟨_, if_pos hlt, Number.round_eq_finite.mpr ⟨?_, hround⟩⟩
      rw [hround]
      calc (natOf whole : ℚ) < 2 ^ 63 := by exact_mod_cast hlt
        _ ≤ 2 ^ 1024 := pow_le_pow_right₀ (by norm_num) (by norm_num)
  · show (∃ q, (if fraction = [] then none else
        if binary64.round (decimalOf whole fraction) < 2 ^ 1024 then
          some (binary64.round (decimalOf whole fraction)) else none) = some q ∧
      Number.round (decimalOf whole fraction) = .finite q) ↔ _
    constructor
    · rintro ⟨q, hcel, hjs⟩
      split at hcel
      · nomatch hcel
      · rename_i hne
        exact ⟨hne, (Number.round_eq_finite.mp hjs).1⟩
    · rintro ⟨hne, hlt⟩
      exact ⟨_, (if_neg hne).trans (if_pos hlt), Number.round_eq_finite.mpr ⟨hlt, rfl⟩⟩

/-! ## Tokens -/

/-- The token that CEL reads in a piece. -/
inductive Denotes : Piece → Token → Prop
  | string {quote : UInt16} {body value : JsString} :
      CelBody body value → Denotes (.quoted quote body) (.string value)
  | number {text : JsString} {q : ℚ} :
      celNumber text = some q → Denotes (.run text) (.number (.finite q))
  | true : Denotes (.word (units "true")) (.bool true)
  | false : Denotes (.word (units "false")) (.bool false)
  | null : Denotes (.word (units "null")) .null
  | isIn : Denotes (.word (units "in")) (.punct .isIn)
  | ident {text : JsString} : text ∉ ["true", "false", "null", "in"].map units →
      Denotes (.word text) (.ident text)
  | punct (p : Punct) : Denotes (.punct p) (.punct p)

def Piece.isBlank : Piece → Bool
  | .space _ => true
  | _ => false

/-- The tokens cover the source: but for blanks it falls into their texts, one after the other, and
    each token is what CEL reads in its text. -/
def Covers (src : JsString) (ts : List Token) : Prop :=
  ∃ ps ts', Splits src ps ∧ Forall₂ Denotes (ps.filter fun p => !p.isBlank) ts' ∧
    ts = ts' ++ [.eof]

/-- `tokenize` ends, and it throws or returns tokens that cover the source. -/
def Faithful (src : JsString) : Prop :=
  tokenize src ≠ .error .outOfFuel ∧ ∀ ts, tokenize src = .ok ts → Covers src ts

def Piece.Plain : Piece → Prop
  | .quoted _ body => PlainBody body
  | .run text => PlainNumeral text
  | _ => True

theorem denotes_wordToken (text : JsString) : Denotes (.word text) (wordToken text) := by
  unfold wordToken
  split
  · rename_i h
    rcases (Bool.or_eq_true _ _).mp h with h | h
    · rw [of_decide_eq_true h]
      exact .true
    · rw [of_decide_eq_true h]
      exact .false
  · rename_i h
    split
    · rename_i hnull
      rw [hnull]
      exact .null
    · split
      · rename_i hin
        rw [hin]
        exact .isIn
      · refine .ident ?_
        simp_all

/-- What cel-lite makes of a piece is what CEL reads in it exactly if the piece is plain. -/
theorem denotes_token_iff {p : Piece} {t : Token} (h : p.token = some t) :
    Denotes p t ↔ p.Plain := by
  cases p with
  | space u => nomatch h
  | quoted quote body =>
    cases h
    refine ⟨fun hd => ?_, fun hp => .string (celBody_iff.mpr hp)⟩
    cases hd with
    | string hbody => exact celBody_iff.mp hbody
  | run text =>
    cases h
    constructor
    · intro hd
      generalize hn : Number.ofText text = n at hd
      cases hd with
      | number hcel => exact celNumber_iff.mp ⟨_, hcel, hn⟩
    · intro hp
      obtain ⟨q, hcel, hn⟩ := celNumber_iff.mpr hp
      rw [hn]
      exact .number hcel
  | word text =>
    cases h
    exact iff_of_true (denotes_wordToken text) trivial
  | punct p =>
    cases h
    exact iff_of_true (.punct p) trivial

theorem forall₂_denotes_iff : ∀ {ps : List Piece},
    Forall₂ Denotes (ps.filter fun p => !p.isBlank) (ps.filterMap Piece.token) ↔
      ∀ p ∈ ps, p.Plain
  | [] => ⟨nofun, fun _ => .nil⟩
  | p :: ps => by
    rw [forall_mem_cons, ← forall₂_denotes_iff]
    cases htoken : p.token with
    | none =>
      cases p with
      | space u => exact (iff_of_eq (true_and _)).symm
      | quoted _ _ | run _ | word _ | punct _ => nomatch htoken
    | some t =>
      have hblank : (!p.isBlank) = true := by
        cases p with
        | space u => nomatch htoken
        | quoted _ _ | run _ | word _ | punct _ => rfl
      rw [filter_cons_of_pos (p := fun p : Piece => !p.isBlank) hblank, filterMap_cons_some htoken, forall₂_cons,
        denotes_token_iff htoken]

/-- The tokens of a source cover it exactly if its pieces are plain. -/
theorem covers_iff {src : JsString} {ps : List Piece} (h : Splits src ps) :
    Covers src (ps.filterMap Piece.token ++ [.eof]) ↔ ∀ p ∈ ps, p.Plain := by
  rw [← forall₂_denotes_iff]
  constructor
  · rintro ⟨ps', ts', hsplit, hts, heq⟩
    rw [h.unique hsplit, append_cancel_right heq] at *
    exact hts
  · exact fun hts => ⟨ps, _, h, hts, rfl⟩

theorem faithful_iff (src : JsString) :
    Faithful src ↔ ∀ ps, Splits src ps → ∀ p ∈ ps, p.Plain := by
  constructor
  · intro h ps hps
    exact (covers_iff hps).mp (h.2 _ (tokenize_eq_ok_iff.mpr ⟨ps, hps, rfl⟩))
  · intro h
    refine ⟨tokenize_ne_outOfFuel src, fun ts hts => ?_⟩
    obtain ⟨ps, hps, rfl⟩ := tokenize_eq_ok_iff.mp hts
    exact (covers_iff hps).mpr (h ps hps)

theorem splits_newline : Splits (units "'\\n'") [.quoted (code '\'') (units "\\n")] :=
  .cons (r := []) (.quoted (by decide) (.escape _ .nil)) .nil

theorem splits_dots : Splits (units "1.2.3") [.run (units "1.2.3")] := by
  have hrun : (Piece.run (code '1' :: units ".2.3")).At [] :=
    .run (by decide) (all_eq_true.mp (by decide +kernel)) nofun
  exact .cons hrun .nil

/-- `'\n'` is read as the letter n, and `1.2.3` as NaN. -/
theorem escapes_dropped :
    (tokenize (units "'\\n'") = .ok [.string (units "n"), .eof] ∧ ¬ Faithful (units "'\\n'")) ∧
      tokenize (units "1.2.3") = .ok [.number .nan, .eof] ∧ ¬ Faithful (units "1.2.3") := by
  have hn : tokenize (units "'\\n'") = .ok [.string (units "n"), .eof] := by decide +kernel
  have hdots : tokenize (units "1.2.3") = .ok [.number .nan, .eof] := by decide +kernel
  refine ⟨⟨hn, fun h => ?_⟩, hdots, fun h => ?_⟩
  · have hplain := (covers_iff splits_newline).mp (h.2 _ hn) _ mem_cons_self
    cases (show PlainBody [backslash, code 'n'] from hplain) with
    | unit hu _ _ _ => exact hu rfl
    | escape he _ =>
      revert he
      decide +kernel
  · exact (covers_iff splits_dots).mp (h.2 _ hdots) _ mem_cons_self

end FalseFlag.CelLite
