/-
  The lexer of cel-lite (js/packages/sdk-js/src/cel-lite.ts).

  A source is a JavaScript string: a list of UTF-16 code units.  `tokenize` goes through it from the
  left; `step` is one turn of its loop, which takes a blank or a token off the front.

  What it looks for can be said without a loop.  A source falls into PIECES: blanks, quoted texts,
  runs of digits and dots, words, and punctuation, each of them as long as it can be (`Splits`).

  * **`tokenize_eq_ok_iff`** — `tokenize` returns the tokens of the pieces, if the source falls into
    pieces.
-/
import FalseFlag.Lib.Binary
import FalseFlag.Lib.Fallible

namespace FalseFlag.CelLite

open List Binary

/-! ## Code units -/

/-- A JavaScript string. -/
abbrev JsString := List UInt16

/-- The code unit of a character of the basic plane. -/
def code (c : Char) : UInt16 := UInt16.ofNat c.toNat

def units (s : String) : JsString := s.toList.map code

def isSpace (u : UInt16) : Bool :=
  u = code ' ' || u = code '\t' || u = code '\n' || u = code '\r'

def isQuote (u : UInt16) : Bool := u = code '\'' || u = code '"'

/-- `/[0-9]/`. -/
def isDigit (u : UInt16) : Bool := code '0' ≤ u && u ≤ code '9'

/-- `/[0-9.]/`. -/
def isRunUnit (u : UInt16) : Bool := isDigit u || u = code '.'

/-- `/[A-Za-z_]/`. -/
def isLetter (u : UInt16) : Bool :=
  (code 'A' ≤ u && u ≤ code 'Z') || (code 'a' ≤ u && u ≤ code 'z') || u = code '_'

/-- `/[A-Za-z0-9_]/`. -/
def isWordUnit (u : UInt16) : Bool := isLetter u || isDigit u

def backslash : UInt16 := code '\\'

/-! ## Numbers -/

/-- The JavaScript numbers that a text without a sign can denote. -/
inductive Number where
  | nan
  | infinity
  | finite (q : ℚ)
  deriving DecidableEq

/-- The number that a list of digits denotes. -/
def natOf (digits : JsString) : ℕ := digits.foldl (fun n d => 10 * n + (d.toNat - 48)) 0

/-- A decimal: the digits before the dot, and those after it. -/
def decimalOf (whole fraction : JsString) : ℚ := natOf (whole ++ fraction) / 10 ^ fraction.length

/-- A text of digits with at most one dot among them: what is before the dot and, if there is one,
    what is after it. -/
def numeral? (text : JsString) : Option (JsString × Option JsString) :=
  let (whole, rest) := text.span isDigit
  match rest with
  | [] => some (whole, none)
  | _ :: fraction => if rest.head? = some (code '.') && fraction.all isDigit then
      some (whole, some fraction) else none

/-- The nearest `float64`; too much is infinity. -/
def Number.round (q : ℚ) : Number :=
  if binary64.round q < 2 ^ 1024 then .finite (binary64.round q) else .infinity

/-- `Number(text)`, for a text of digits and dots that starts with a digit. -/
def Number.ofText (text : JsString) : Number :=
  match numeral? text with
  | none => .nan
  | some (whole, fraction) => .round (decimalOf whole (fraction.getD []))

/-! ## Tokens -/

inductive Punct where
  | lparen | rparen | lbracket | rbracket | dot | comma | bang
  | lt | gt | eq | ne | le | ge | and | or | isIn
  deriving DecidableEq

inductive Token where
  | string (value : JsString)
  | number (value : Number)
  | bool (value : Bool)
  | null
  | ident (value : JsString)
  | punct (value : Punct)
  | eof
  deriving DecidableEq

/-- `value` of a punctuation token. -/
def Punct.text : Punct → JsString
  | .lparen => units "("
  | .rparen => units ")"
  | .lbracket => units "["
  | .rbracket => units "]"
  | .dot => units "."
  | .comma => units ","
  | .bang => units "!"
  | .lt => units "<"
  | .gt => units ">"
  | .eq => units "=="
  | .ne => units "!="
  | .le => units "<="
  | .ge => units ">="
  | .and => units "&&"
  | .or => units "||"
  | .isIn => units "in"

/-- Punctuation of two characters. -/
def twoChars : List Punct := [.eq, .ne, .le, .ge, .and, .or]

/-- Punctuation of one character. -/
def oneChar : List Punct := [.lparen, .rparen, .dot, .lt, .gt, .bang, .comma, .lbracket, .rbracket]

/-- The token of a word. -/
def wordToken (word : JsString) : Token :=
  if word = units "true" || word = units "false" then .bool (word = units "true")
  else if word = units "null" then .null
  else if word = units "in" then .punct .isIn
  else .ident word

/-! ## The loop -/

inductive LexError where
  /-- `unterminated string at ${i}` -/
  | unterminated (i : ℕ)
  /-- `unexpected character ${JSON.stringify(ch)} at ${i}` -/
  | unexpected (ch : UInt16) (i : ℕ)
  | outOfFuel
  deriving DecidableEq

/-- The loop over a string literal, after the opening quote: the value, and what comes after the
    closing one.  `none` is the end of the source. -/
def scanString (quote : UInt16) : JsString → Option (JsString × JsString)
  | [] => none
  | u :: rest =>
    if u = quote then some ([], rest)
    else if u = backslash then
      match rest with
      -- a backslash at the end is no escape; the literal has no end either
      | [] => none
      | v :: rest => (scanString quote rest).map fun (out, r) => (v :: out, r)
    else (scanString quote rest).map fun (out, r) => (u :: out, r)

/-- One turn of the loop of `tokenize`, at `ch`, with `rest` after it: the token that is pushed, if
    any, and what is left.  The index `i` is the length of the source less what is left. -/
def step (len : ℕ) (ch : UInt16) (rest : JsString) : Except LexError (Option Token × JsString) :=
  if isSpace ch then .ok (none, rest)
  else if isQuote ch then
    match scanString ch rest with
    | none => .error (.unterminated (len - (rest.length + 1)))
    | some (out, rest) => .ok (some (.string out), rest)
  else if isDigit ch then
    .ok (some (.number (.ofText ((ch :: rest).takeWhile isRunUnit))), (ch :: rest).dropWhile isRunUnit)
  else if isLetter ch then
    .ok (some (wordToken ((ch :: rest).takeWhile isWordUnit)), (ch :: rest).dropWhile isWordUnit)
  else
    match twoChars.find? fun p => p.text = (ch :: rest).take 2 with
    | some p => .ok (some (.punct p), rest.tail)
    | none =>
      match oneChar.find? fun p => p.text = [ch] with
      | some p => .ok (some (.punct p), rest)
      | none => .error (.unexpected ch (len - (rest.length + 1)))

/-- The loop. -/
def scan (len : ℕ) : ℕ → JsString → Except LexError (List Token)
  | _, [] => .ok [.eof]
  | 0, _ :: _ => .error .outOfFuel
  | n + 1, ch :: rest => do
    let (token, rest) ← step len ch rest
    let tokens ← scan len n rest
    pure (token.toList ++ tokens)

/-- `tokenize`. -/
def tokenize (src : JsString) : Except LexError (List Token) := scan src.length src.length src

/-! ## The pieces of a source -/

/-- What may stand in a literal between two quotes. -/
inductive Body (quote : UInt16) : JsString → Prop
  | nil : Body quote []
  | unit {u : UInt16} {body : JsString} :
      u ≠ quote → u ≠ backslash → Body quote body → Body quote (u :: body)
  | escape (u : UInt16) {body : JsString} : Body quote body → Body quote (backslash :: u :: body)

/-- A body without the backslashes that escape. -/
def unescape : JsString → JsString
  | [] => []
  | u :: rest =>
    if u = backslash then
      match rest with
      | [] => []
      | v :: rest => v :: unescape rest
    else u :: unescape rest

inductive Piece where
  | space (u : UInt16)
  | quoted (quote : UInt16) (body : JsString)
  | run (text : JsString)
  | word (text : JsString)
  | punct (p : Punct)

def Piece.text : Piece → JsString
  | .space u => [u]
  | .quoted quote body => quote :: (body ++ [quote])
  | .run text | .word text => text
  | .punct p => p.text

/-- The token that cel-lite makes of a piece. -/
def Piece.token : Piece → Option Token
  | .space _ => none
  | .quoted _ body => some (.string (unescape body))
  | .run text => some (.number (.ofText text))
  | .word text => some (wordToken text)
  | .punct p => some (.punct p)

/-- A piece as it stands in front of `r`: it is well formed, and does not go on there. -/
inductive Piece.At : Piece → JsString → Prop
  | space {u : UInt16} {r : JsString} : isSpace u = true → At (.space u) r
  | quoted {quote : UInt16} {body r : JsString} :
      isQuote quote = true → Body quote body → At (.quoted quote body) r
  | run {d : UInt16} {text r : JsString} : isDigit d = true → (∀ u ∈ text, isRunUnit u = true) →
      (∀ u ∈ r.head?, isRunUnit u = false) → At (.run (d :: text)) r
  | word {l : UInt16} {text r : JsString} : isLetter l = true → (∀ u ∈ text, isWordUnit u = true) →
      (∀ u ∈ r.head?, isWordUnit u = false) → At (.word (l :: text)) r
  | twoChars {p : Punct} {r : JsString} : p ∈ twoChars → At (.punct p) r
  | oneChar {p : Punct} {r : JsString} : p ∈ oneChar →
      (∀ q ∈ CelLite.twoChars, q.text ≠ (p.text ++ r).take 2) → At (.punct p) r

/-- The source falls into these pieces. -/
inductive Splits : JsString → List Piece → Prop
  | nil : Splits [] []
  | cons {p : Piece} {r : JsString} {ps : List Piece} :
      p.At r → Splits r ps → Splits (p.text ++ r) (p :: ps)

/-! ## One turn of the loop -/

variable {u : UInt16}

theorem isSpace_iff : isSpace u = true ↔ u ∈ units " \t\n\r" := by
  simp only [isSpace, Bool.or_eq_true, decide_eq_true_eq, or_assoc]
  exact (by simp [units] : u ∈ units " \t\n\r" ↔ _).symm

theorem isQuote_iff : isQuote u = true ↔ u ∈ units "'\"" := by
  simp only [isQuote, Bool.or_eq_true, decide_eq_true_eq]
  exact (by simp [units] : u ∈ units "'\"" ↔ _).symm

variable {f : UInt16 → Bool}

/-- One of a few units, where a test holds that all of them fail. -/
theorem eq_false_of_mem {g : UInt16 → Bool} {us : JsString} (h : f u = true)
    (hg : g u = true ↔ u ∈ us) (hf : (us.all fun v => !f v) = true) : g u = false := by
  by_contra hne
  have hu := all_eq_true.mp hf u (hg.mp (Bool.not_eq_false _ ▸ hne))
  rw [h] at hu
  nomatch hu

theorem quote_start (h : isQuote u = true) : isSpace u = false :=
  eq_false_of_mem h isSpace_iff rfl

theorem digit_start (h : isDigit u = true) : isSpace u = false ∧ isQuote u = false :=
  ⟨eq_false_of_mem h isSpace_iff rfl, eq_false_of_mem h isQuote_iff rfl⟩

theorem letter_start (h : isLetter u = true) :
    isSpace u = false ∧ isQuote u = false ∧ isDigit u = false := by
  refine ⟨eq_false_of_mem h isSpace_iff rfl, eq_false_of_mem h isQuote_iff rfl, ?_⟩
  by_contra hdigit
  simp only [isLetter, isDigit, Bool.or_eq_true, Bool.and_eq_true, decide_eq_true_eq,
    UInt16.le_iff_toNat_le, Bool.not_eq_false, ← UInt16.toNat_inj] at h hdigit
  have h9 : (code '9').toNat = 57 := by decide
  have hA : (code 'A').toNat = 65 := by decide
  have ha : (code 'a').toNat = 97 := by decide
  have h_ : (code '_').toNat = 95 := by decide
  omega

variable {quote : UInt16}

theorem ne_backslash (h : isQuote quote = true) : quote ≠ backslash := by
  rintro rfl
  revert h
  decide

theorem scanString_quote (quote : UInt16) (r : JsString) :
    scanString quote (quote :: r) = some ([], r) := by
  rw [scanString.eq_def]
  exact if_pos rfl

theorem scanString_unit (hu : u ≠ quote) (hb : u ≠ backslash) (r : JsString) :
    scanString quote (u :: r) = (scanString quote r).map fun (out, r) => (u :: out, r) := by
  rw [scanString.eq_def]
  exact (if_neg hu).trans (if_neg hb)

theorem scanString_escape (hquote : quote ≠ backslash) (v : UInt16) (r : JsString) :
    scanString quote (backslash :: v :: r) =
      (scanString quote r).map fun (out, r) => (v :: out, r) := by
  rw [scanString.eq_def]
  exact (if_neg hquote.symm).trans (if_pos rfl)

theorem unescape_unit (hb : u ≠ backslash) (rest : JsString) :
    unescape (u :: rest) = u :: unescape rest := by
  rw [unescape.eq_def]
  exact if_neg hb

theorem unescape_escape (v : UInt16) (rest : JsString) :
    unescape (backslash :: v :: rest) = v :: unescape rest := by
  rw [unescape.eq_def]
  exact if_pos rfl

/-- The loop over a literal goes over a body, to the quote that ends it. -/
theorem scanString_body {body : JsString} (r : JsString)
    (hquote : quote ≠ backslash) (h : Body quote body) :
    scanString quote (body ++ quote :: r) = some (unescape body, r) := by
  induction h with
  | nil => exact scanString_quote quote r
  | unit hu hb _ ih =>
    rw [cons_append, scanString_unit hu hb, ih, unescape_unit hb]
    rfl
  | escape u _ ih =>
    rw [cons_append, cons_append, scanString_escape hquote, ih, unescape_escape]
    rfl

/-- And over nothing else. -/
theorem body_of_scanString (hquote : quote ≠ backslash) :
    ∀ {s out r : JsString}, scanString quote s = some (out, r) →
      ∃ body, Body quote body ∧ s = body ++ quote :: r ∧ out = unescape body
  | [], _, _, h => nomatch h
  | u :: rest, out, r, h => by
    by_cases hu : u = quote
    · subst hu
      rw [scanString_quote] at h
      cases h
      exact ⟨[], .nil, rfl, rfl⟩
    · by_cases hb : u = backslash
      · subst hb
        cases rest with
        | nil =>
          rw [scanString.eq_def] at h
          exact nomatch ((if_neg hu).trans (if_pos rfl)).symm.trans h
        | cons v rest =>
          rw [scanString_escape hquote] at h
          obtain ⟨⟨out', r'⟩, hscan, heq⟩ := Option.map_eq_some_iff.mp h
          cases heq
          obtain ⟨body, hbody, rfl, rfl⟩ := body_of_scanString hquote hscan
          exact ⟨_, .escape v hbody, rfl, (unescape_escape v body).symm⟩
      · rw [scanString_unit hu hb] at h
        obtain ⟨⟨out', r'⟩, hscan, heq⟩ := Option.map_eq_some_iff.mp h
        cases heq
        obtain ⟨body, hbody, rfl, rfl⟩ := body_of_scanString hquote hscan
        exact ⟨_, .unit hu hb hbody, rfl, (unescape_unit hb body).symm⟩

variable {r : JsString}

/-- A text of such units, in front of something else. -/
theorem span_at {text : JsString} (htext : ∀ u ∈ text, f u = true)
    (hr : ∀ u ∈ r.head?, f u = false) :
    (text ++ r).takeWhile f = text ∧ (text ++ r).dropWhile f = r := by
  rw [takeWhile_append_of_pos htext, dropWhile_append_of_pos htext]
  cases r with
  | nil => exact ⟨append_nil _, rfl⟩
  | cons u r =>
    have hu := hr u rfl
    rw [takeWhile_cons_of_neg (by rw [hu]; exact Bool.false_ne_true),
      dropWhile_cons_of_neg (by rw [hu]; exact Bool.false_ne_true), append_nil]
    exact ⟨rfl, rfl⟩

variable {ch : UInt16}

/-- The longest text of such units, from one of them on. -/
theorem span_cons (h : f ch = true) (rest : JsString) :
    ∃ text, (ch :: rest).takeWhile f = ch :: text ∧ (∀ u ∈ text, f u = true) ∧
      ch :: rest = ch :: text ++ (ch :: rest).dropWhile f ∧
      ∀ u ∈ ((ch :: rest).dropWhile f).head?, f u = false := by
  refine ⟨rest.takeWhile f, takeWhile_cons_of_pos h, all_eq_true.mp all_takeWhile,
    ?_, fun u hu => ?_⟩
  · rw [dropWhile_cons_of_pos h, cons_append, takeWhile_append_dropWhile]
  · have hhead := head?_dropWhile_not f (ch :: rest)
    rwa [Option.mem_def.mp hu] at hhead

theorem find?_of_unique {α : Type} {l : List α} {f : α → Bool} {a : α} (hmem : a ∈ l)
    (ha : f a = true) (hunique : ∀ b ∈ l, f b = true → b = a) : l.find? f = some a := by
  cases h : l.find? f with
  | none => exact absurd ha (find?_eq_none.mp h a hmem)
  | some b => rw [hunique b (mem_of_find?_eq_some h) (find?_some h)]

variable {p : Punct}

theorem of_find?_text {l : List Punct} {text : JsString}
    (h : (l.find? fun q => q.text = text) = some p) : p ∈ l ∧ p.text = text := by
  have hp := find?_some h
  exact ⟨mem_of_find?_eq_some h, of_decide_eq_true hp⟩

/-- Punctuation starts with no unit that starts anything else. -/
theorem punct_start : ∀ p ∈ twoChars ++ oneChar, p.text.all fun u =>
    !isSpace u && !isQuote u && !isDigit u && !isLetter u := by decide

theorem length_text : (∀ p ∈ twoChars, p.text.length = 2) ∧ ∀ p ∈ oneChar, p.text.length = 1 := by
  decide

theorem text_inj : ∀ p ∈ twoChars ++ oneChar, ∀ q ∈ twoChars ++ oneChar, p.text = q.text → p = q := by
  decide +kernel

variable {len : ℕ} {rest : JsString}

/-- At a unit that starts neither a blank, a literal nor a word, the loop looks for punctuation. -/
theorem step_punct (hspace : isSpace ch = false)
    (hquote : isQuote ch = false) (hdigit : isDigit ch = false) (hletter : isLetter ch = false) :
    step len ch rest =
      match twoChars.find? fun p => p.text = (ch :: rest).take 2 with
      | some p => .ok (some (.punct p), rest.tail)
      | none =>
        match oneChar.find? fun p => p.text = [ch] with
        | some p => .ok (some (.punct p), rest)
        | none => .error (.unexpected ch (len - (rest.length + 1))) := by
  simp only [step, hspace, hquote, hdigit, hletter, Bool.false_eq_true, if_false]

theorem step_twoChars (hp : p ∈ twoChars) (r : JsString) :
    ∃ ch rest, p.text ++ r = ch :: rest ∧ step len ch rest = .ok (some (.punct p), r) := by
  have hmem : p ∈ twoChars ++ oneChar := mem_append_left _ hp
  obtain ⟨a, b, htext⟩ := length_eq_two.mp (length_text.1 p hp)
  have hstart := punct_start p hmem
  rw [htext] at hstart
  simp only [all_cons, Bool.and_eq_true, Bool.not_eq_true'] at hstart
  obtain ⟨⟨⟨⟨hspace, hquote⟩, hdigit⟩, hletter⟩, -⟩ := hstart
  have hfind : (twoChars.find? fun q => q.text = (a :: b :: r).take 2) = some p := by
    refine find?_of_unique hp (by rw [htext]; exact decide_eq_true rfl) fun q hq h => ?_
    exact text_inj q (mem_append_left _ hq) p hmem ((of_decide_eq_true h).trans htext.symm)
  refine ⟨a, b :: r, by rw [htext]; rfl, ?_⟩
  rw [step_punct hspace hquote hdigit hletter, hfind]
  rfl

theorem step_oneChar (hp : p ∈ oneChar) (hr : ∀ q ∈ twoChars, q.text ≠ (p.text ++ r).take 2) :
    ∃ ch rest, p.text ++ r = ch :: rest ∧ step len ch rest = .ok (some (.punct p), r) := by
  have hmem : p ∈ twoChars ++ oneChar := mem_append_right _ hp
  obtain ⟨a, htext⟩ := length_eq_one_iff.mp (length_text.2 p hp)
  have hstart := punct_start p hmem
  rw [htext] at hstart
  simp only [all_cons, Bool.and_eq_true, Bool.not_eq_true'] at hstart
  obtain ⟨⟨⟨⟨hspace, hquote⟩, hdigit⟩, hletter⟩, -⟩ := hstart
  rw [htext] at hr
  have hnone : (twoChars.find? fun q => q.text = (a :: r).take 2) = none :=
    find?_eq_none.mpr fun q hq h => hr q hq (of_decide_eq_true h)
  have hfind : (oneChar.find? fun q => q.text = [a]) = some p := by
    refine find?_of_unique hp (decide_eq_true htext) fun q hq h => ?_
    exact text_inj q (mem_append_right _ hq) p hmem ((of_decide_eq_true h).trans htext.symm)
  refine ⟨a, r, by rw [htext]; rfl, ?_⟩
  rw [step_punct hspace hquote hdigit hletter, hnone, hfind]

/-- **A turn takes the piece** that stands in front. -/
theorem step_of_at {p : Piece} (h : p.At r) (len : ℕ) :
    ∃ ch rest, p.text ++ r = ch :: rest ∧ step len ch rest = .ok (p.token, r) := by
  cases h with
  | space hu => exact ⟨_, _, rfl, if_pos hu⟩
  | @quoted quote body _ hquote hbody =>
    have hspace := quote_start hquote
    refine ⟨quote, body ++ quote :: r, by simp [Piece.text], ?_⟩
    simp only [step, hspace, hquote, Bool.false_eq_true, if_false, if_true,
      scanString_body r (ne_backslash hquote) hbody]
    rfl
  | @run d text _ hd htext hr =>
    obtain ⟨hspace, hquote⟩ := digit_start hd
    have hall : ∀ u ∈ d :: text, isRunUnit u = true :=
      forall_mem_cons.mpr ⟨by rw [isRunUnit, hd, Bool.true_or], htext⟩
    obtain ⟨htake, hdrop⟩ := span_at hall hr
    rw [cons_append] at htake hdrop
    refine ⟨d, text ++ r, rfl, ?_⟩
    simp only [step, hspace, hquote, hd, Bool.false_eq_true, if_false, if_true, htake, hdrop]
    rfl
  | @word l text _ hl htext hr =>
    obtain ⟨hspace, hquote, hdigit⟩ := letter_start hl
    have hall : ∀ u ∈ l :: text, isWordUnit u = true :=
      forall_mem_cons.mpr ⟨by rw [isWordUnit, hl, Bool.true_or], htext⟩
    obtain ⟨htake, hdrop⟩ := span_at hall hr
    rw [cons_append] at htake hdrop
    refine ⟨l, text ++ r, rfl, ?_⟩
    simp only [step, hspace, hquote, hdigit, hl, Bool.false_eq_true, if_false, if_true,
      htake, hdrop]
    rfl
  | twoChars hp => exact step_twoChars hp r
  | oneChar hp hr => exact step_oneChar hp hr

/-- **What a turn takes is a piece.** -/
theorem at_of_step {rest r : JsString} {token : Option Token}
    (h : step len ch rest = .ok (token, r)) :
    ∃ p : Piece, p.At r ∧ ch :: rest = p.text ++ r ∧ token = p.token := by
  unfold step at h
  split at h
  · rename_i hspace
    cases h
    exact ⟨.space ch, .space hspace, rfl, rfl⟩
  · split at h
    · rename_i hquote
      split at h
      · nomatch h
      · rename_i out rest' hscan
        cases h
        obtain ⟨body, hbody, rfl, rfl⟩ := body_of_scanString (ne_backslash hquote) hscan
        exact ⟨.quoted ch body, .quoted hquote hbody, by simp [Piece.text], rfl⟩
    · split at h
      · rename_i hdigit
        obtain ⟨text, htake, htext, hsplit, hr⟩ :=
          span_cons (f := isRunUnit) (by rw [isRunUnit, hdigit, Bool.true_or]) rest
        rw [htake] at h
        cases h
        exact ⟨.run (ch :: text), .run hdigit htext hr, hsplit, rfl⟩
      · split at h
        · rename_i hletter
          obtain ⟨text, htake, htext, hsplit, hr⟩ :=
            span_cons (f := isWordUnit) (by rw [isWordUnit, hletter, Bool.true_or]) rest
          rw [htake] at h
          cases h
          exact ⟨.word (ch :: text), .word hletter htext hr, hsplit, rfl⟩
        · split at h
          · rename_i p hfind
            cases h
            obtain ⟨hp, htext⟩ := of_find?_text hfind
            refine ⟨.punct p, .twoChars hp, ?_, rfl⟩
            show _ = p.text ++ rest.tail
            have hlen := length_text.1 p hp
            rw [htext] at hlen
            rw [htext]
            cases rest with
            | nil => nomatch hlen
            | cons u rest => rfl
          · rename_i hnone
            split at h
            · rename_i p hfind
              cases h
              obtain ⟨hp, htext⟩ := of_find?_text hfind
              refine ⟨.punct p, .oneChar hp fun q hq heq => ?_, ?_, rfl⟩
              · rw [htext] at heq
                exact find?_eq_none.mp hnone q hq (decide_eq_true heq)
              · show _ = p.text ++ rest
                rw [htext]
                rfl
            · nomatch h

/-! ## The whole source -/

theorem text_ne_nil {p : Piece} (h : p.At r) : p.text ≠ [] := by
  cases h with
  | space _ | quoted _ _ | run _ _ _ | word _ _ _ => exact cons_ne_nil _ _
  | twoChars hp => exact ne_nil_of_length_pos (by rw [Piece.text, length_text.1 _ hp]; decide)
  | oneChar hp _ => exact ne_nil_of_length_pos (by rw [Piece.text, length_text.2 _ hp]; decide)

/-- What is left after a turn is shorter. -/
theorem length_of_step {token : Option Token}
    (h : step len ch rest = .ok (token, r)) : r.length ≤ rest.length := by
  obtain ⟨p, hp, hsplit, -⟩ := at_of_step h
  have hlen := congrArg List.length hsplit
  have hpos := length_pos_of_ne_nil (text_ne_nil hp)
  rw [length_cons, length_append] at hlen
  omega

theorem step_ne_outOfFuel (len : ℕ) (ch : UInt16) (rest : JsString) :
    step len ch rest ≠ .error .outOfFuel := by
  unfold step
  repeat' split
  all_goals exact nofun

variable {src : JsString}

/-- The loop, over a source that falls into pieces. -/
theorem scan_of_splits {ps : List Piece} (h : Splits src ps) :
    ∀ {n : ℕ}, src.length ≤ n → scan len n src = .ok (ps.filterMap Piece.token ++ [.eof]) := by
  induction h with
  | nil =>
    intro n _
    cases n <;> rfl
  | @cons p r ps hp _ ih =>
    intro n hn
    obtain ⟨ch, rest, hsplit, hstep⟩ := step_of_at hp len
    have hlen := length_of_step hstep
    rw [hsplit, length_cons] at hn
    obtain ⟨n, rfl⟩ : ∃ m, n = m + 1 := ⟨n - 1, by omega⟩
    rw [hsplit, scan, hstep]
    show (scan len n r >>= fun tokens => pure (p.token.toList ++ tokens)) = _
    rw [ih (by omega), filterMap_cons]
    cases p.token <;> rfl

/-- The loop finds the pieces. -/
theorem splits_of_scan : ∀ {n : ℕ} {src : JsString} {ts : List Token},
    scan len n src = .ok ts → ∃ ps, Splits src ps ∧ ts = ps.filterMap Piece.token ++ [.eof]
  | n, [], ts, h => by
    have hts : ts = [.eof] := by
      cases n <;> exact (Except.ok.inj h).symm
    exact ⟨[], .nil, hts⟩
  | 0, _ :: _, _, h => nomatch h
  | n + 1, ch :: rest, ts, h => by
    rw [scan] at h
    obtain ⟨⟨token, r⟩, hstep, h⟩ := Fallible.bind_eq_ok.mp h
    obtain ⟨tokens, hscan, h⟩ := Fallible.bind_eq_ok.mp h
    obtain ⟨ps, hps, rfl⟩ := splits_of_scan hscan
    obtain ⟨p, hp, hsplit, rfl⟩ := at_of_step hstep
    refine ⟨p :: ps, hsplit ▸ .cons hp hps, ?_⟩
    rw [← Except.ok.inj h, filterMap_cons]
    cases p.token <;> rfl

/-- **`tokenize` returns the tokens of the pieces**, if the source falls into pieces. -/
theorem tokenize_eq_ok_iff {ts : List Token} :
    tokenize src = .ok ts ↔ ∃ ps, Splits src ps ∧ ts = ps.filterMap Piece.token ++ [.eof] := by
  constructor
  · exact splits_of_scan
  · rintro ⟨ps, hps, rfl⟩
    exact scan_of_splits hps (Nat.le_refl _)

/-- There is a turn for every code unit, and more are not needed. -/
theorem scan_ne_outOfFuel : ∀ {n : ℕ} {src : JsString}, src.length ≤ n →
    scan len n src ≠ .error .outOfFuel
  | n, [], _ => by
    cases n <;> exact nofun
  | 0, _ :: _, h => absurd h (Nat.not_succ_le_zero _)
  | n + 1, ch :: rest, hn => by
    intro h
    rw [scan] at h
    rw [length_cons] at hn
    rcases Fallible.bind_eq_error.mp h with hstep | ⟨⟨token, r⟩, hstep, h⟩
    · exact step_ne_outOfFuel len ch rest hstep
    · have hlen := length_of_step hstep
      rcases Fallible.bind_eq_error.mp h with hscan | ⟨tokens, -, h⟩
      · exact scan_ne_outOfFuel (by omega) hscan
      · nomatch h

/-- There is a turn for every code unit. -/
theorem tokenize_ne_outOfFuel (src : JsString) : tokenize src ≠ .error .outOfFuel :=
  scan_ne_outOfFuel (Nat.le_refl _)

/-- The kinds of pieces, numbered as the loop looks for them. -/
def Piece.kind : Piece → ℕ
  | .space _ => 0
  | .quoted _ _ => 1
  | .run _ => 2
  | .word _ => 3
  | .punct _ => 4

/-- The kind of the piece that a unit starts. -/
def kindOf (u : UInt16) : ℕ :=
  if isSpace u then 0 else if isQuote u then 1 else if isDigit u then 2 else if isLetter u then 3 else 4

theorem kindOf_punct (hp : p ∈ twoChars ++ oneChar) : ∀ u ∈ p.text, kindOf u = 4 := by
  intro u hu
  have hstart := all_eq_true.mp (punct_start p hp) u hu
  simp only [Bool.and_eq_true, Bool.not_eq_true'] at hstart
  obtain ⟨⟨⟨hspace, hquote⟩, hdigit⟩, hletter⟩ := hstart
  simp only [kindOf, hspace, hquote, hdigit, hletter, Bool.false_eq_true, if_false]

/-- What kind of piece it is shows in its first unit. -/
theorem kind_at {p : Piece} (h : p.At r) :
    ∃ u text, p.text = u :: text ∧ kindOf u = p.kind := by
  obtain ⟨u, text, htext⟩ := exists_cons_of_ne_nil (text_ne_nil h)
  refine ⟨u, text, htext, ?_⟩
  cases h with
  | space hu =>
    cases htext
    exact if_pos hu
  | quoted hquote _ =>
    cases htext
    have hspace := quote_start hquote
    simp only [kindOf, hspace, hquote, Bool.false_eq_true, if_false, if_true, Piece.kind]
  | run hd _ _ =>
    cases htext
    obtain ⟨hspace, hquote⟩ := digit_start hd
    simp only [kindOf, hspace, hquote, hd, Bool.false_eq_true, if_false, if_true, Piece.kind]
  | word hl _ _ =>
    cases htext
    obtain ⟨hspace, hquote, hdigit⟩ := letter_start hl
    simp only [kindOf, hspace, hquote, hdigit, hl, Bool.false_eq_true, if_false,
      if_true, Piece.kind]
  | @twoChars p _ hp =>
    refine kindOf_punct (mem_append_left _ hp) u ?_
    rw [show p.text = u :: text from htext]
    exact mem_cons_self
  | @oneChar p _ hp _ =>
    refine kindOf_punct (mem_append_right _ hp) u ?_
    rw [show p.text = u :: text from htext]
    exact mem_cons_self

theorem Piece.At.punct_mem (h : (Piece.punct p).At r) :
    p ∈ CelLite.twoChars ++ CelLite.oneChar := by
  cases h with
  | twoChars hp => exact mem_append_left _ hp
  | oneChar hp _ => exact mem_append_right _ hp

/-- Pieces with one text are one. -/
theorem eq_of_text_eq {p p' : Piece} {r' : JsString} (h : p.At r) (h' : p'.At r')
    (htext : p.text = p'.text) : p = p' := by
  have hkind : p.kind = p'.kind := by
    obtain ⟨u, text, hp, hu⟩ := kind_at h
    obtain ⟨u', text', hp', hu'⟩ := kind_at h'
    rw [hp, hp'] at htext
    rw [← hu, ← hu', (List.cons.inj htext).1]
  cases p <;> cases p'
  any_goals exact absurd hkind (Nat.ne_of_beq_eq_false rfl)
  case space.space => rw [(List.cons.inj htext).1]
  case quoted.quoted =>
    obtain ⟨rfl, hbody⟩ := List.cons.inj htext
    rw [append_cancel_right hbody]
  case run.run => exact congrArg _ htext
  case word.word => exact congrArg _ htext
  case punct.punct => rw [text_inj _ h.punct_mem _ h'.punct_mem htext]

/-- A source falls into pieces in one way. -/
theorem Splits.unique {ps ps' : List Piece} (h : Splits src ps)
    (h' : Splits src ps') : ps = ps' := by
  induction h generalizing ps' with
  | nil =>
    generalize hsrc : ([] : JsString) = src at h'
    cases h' with
    | nil => rfl
    | cons hp _ => exact absurd (append_eq_nil_iff.mp hsrc.symm).1 (text_ne_nil hp)
  | @cons p r ps hp _ ih =>
    generalize hsrc : p.text ++ r = src at h'
    cases h' with
    | nil => exact absurd (append_eq_nil_iff.mp hsrc).1 (text_ne_nil hp)
    | @cons p' r' ps' hp' hps' =>
      obtain ⟨ch, rest, hsplit, hstep⟩ := step_of_at hp 0
      obtain ⟨ch', rest', hsplit', hstep'⟩ := step_of_at hp' 0
      rw [← hsrc, hsplit] at hsplit'
      cases hsplit'
      have hr : r = r' := congrArg Prod.snd (Except.ok.inj (hstep.symm.trans hstep'))
      subst hr
      rw [eq_of_text_eq hp hp' (append_cancel_right hsrc), ih hps']

end FalseFlag.CelLite
