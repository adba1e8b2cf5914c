/-
  Reading JSON texts.

  `read` is the grammar of JSON as a function: values with white space around them, strings with
  their escapes, nothing after the value.  How a number is spelled is given (`number`).  A `\uXXXX`
  that is half of a surrogate pair stands for the replacement character, as decoders do that have no
  other way to write it.

  `read_render`: whatever a serialiser writes (`Code.render`) is read back, if the reader knows its
  numbers and its escapes (`Knows`).  Readers take some of a text and return the rest, and they are
  given fuel; the length of the text is enough, since every step takes a character.
-/
import FalseFlag.Lib.Digits
import FalseFlag.Lib.JsonText

namespace JsonTree

open List Digits Bool

/-! ## Strings -/

/-- A UTF-16 code unit in four hexadecimal digits. -/
def codeUnit (cs : List Char) : Option (ℕ × List Char) := Digits.read 16 hex? 4 0 cs

def isSurrogate (n : ℕ) : Bool := 0xD800 ≤ n && n < 0xE000

/-- The character of a surrogate pair. -/
def surrogatePair (high low : ℕ) : Option Char :=
  if high < 0xDC00 ∧ 0xDC00 ≤ low ∧ low < 0xE000 then
    some (Char.ofNat (0x10000 + (high - 0xD800) * 0x400 + (low - 0xDC00)))
  else none

/-- The second half of a pair, if it is there. -/
def readLow (high : ℕ) : List Char → Option (Char × List Char)
  | '\\' :: 'u' :: cs =>
    match codeUnit cs with
    | none => none
    | some (low, r) => (surrogatePair high low).map fun c => (c, r)
  | _ => none

/-- What stands after `\u`. -/
def readUnicode (cs : List Char) : Option (Char × List Char) :=
  match codeUnit cs with
  | none => none
  | some (n, r) =>
    if isSurrogate n then some ((readLow n r).getD ('�', r)) else some (Char.ofNat n, r)

/-- What a letter after a backslash stands for. -/
def unescapeLetter (e : Char) : Option Char :=
  if e = '"' then some '"'
  else if e = '\\' then some '\\'
  else if e = '/' then some '/'
  else if e = 'b' then some '\x08'
  else if e = 'f' then some '\x0c'
  else if e = 'n' then some '\n'
  else if e = 'r' then some '\r'
  else if e = 't' then some '\t'
  else none

/-- What stands after a backslash. -/
def readEscape : List Char → Option (Char × List Char)
  | [] => none
  | e :: r => if e = 'u' then readUnicode r else (unescapeLetter e).map fun c => (c, r)

/-- One character of a string; control characters must be escaped. -/
def readChar : List Char → Option (Char × List Char)
  | [] => none
  | c :: r =>
    if c = '\\' then readEscape r
    else if c.toNat < 32 then none
    else some (c, r)

/-- The characters of a string up to the closing quote. -/
def readBody : ℕ → List Char → Option (List Char × List Char)
  | 0, _ => none
  | n + 1, cs =>
    match expect '"' cs with
    | some r => some ([], r)
    | none =>
      match readChar cs with
      | none => none
      | some (c, r) => (readBody n r).map fun (s, r) => (c :: s, r)

/-! ## Values -/

def isSpace (c : Char) : Bool := c = ' ' || c = '\t' || c = '\n' || c = '\r'

def skip (cs : List Char) : List Char := cs.dropWhile isSpace

variable {N : Type}

/-- The rest of a literal. -/
def readLiteral (word : List Char) (v : Json N) (cs : List Char) : Option (Json N × List Char) :=
  if word <+: cs then some (v, cs.drop word.length) else none

section

variable (number : List Char → Option (N × List Char))

mutual

/-- A value. -/
def readValue : ℕ → List Char → Option (Json N × List Char)
  | 0, _ => none
  | n + 1, cs =>
    match skip cs with
    | [] => none
    | c :: r =>
      if c = '"' then (readBody n r).map fun (s, r) => (.str (String.ofList s), r)
      else if c = '[' then
        match expect ']' (skip r) with
        | some r => some (.arr [], r)
        | none =>
          match readValue n r with
          | none => none
          | some (v, r) => (readItems n r).map fun (vs, r) => (.arr (v :: vs), r)
      else if c = '{' then
        match expect '}' (skip r) with
        | some r => some (.obj [], r)
        | none =>
          match readMember n r with
          | none => none
          | some (m, r) => (readMembers n r).map fun (ms, r) => (.obj (m :: ms), r)
      else if c = 'n' then readLiteral "ull".toList .null r
      else if c = 't' then readLiteral "rue".toList (.bool true) r
      else if c = 'f' then readLiteral "alse".toList (.bool false) r
      else (number (c :: r)).map fun (x, r) => (.num x, r)

/-- The items of an array after the first. -/
def readItems : ℕ → List Char → Option (List (Json N) × List Char)
  | 0, _ => none
  | n + 1, cs =>
    match expect ']' (skip cs) with
    | some r => some ([], r)
    | none =>
      match expect ',' (skip cs) with
      | none => none
      | some r =>
        match readValue n r with
        | none => none
        | some (v, r) => (readItems n r).map fun (vs, r) => (v :: vs, r)

/-- A name, a colon and a value. -/
def readMember : ℕ → List Char → Option ((String × Json N) × List Char)
  | 0, _ => none
  | n + 1, cs =>
    match expect '"' (skip cs) with
    | none => none
    | some r =>
      match readBody n r with
      | none => none
      | some (name, r) =>
        match expect ':' (skip r) with
        | none => none
        | some r => (readValue n r).map fun (v, r) => ((String.ofList name, v), r)

/-- The members of an object after the first. -/
def readMembers : ℕ → List Char → Option (List (String × Json N) × List Char)
  | 0, _ => none
  | n + 1, cs =>
    match expect '}' (skip cs) with
    | some r => some ([], r)
    | none =>
      match expect ',' (skip cs) with
      | none => none
      | some r =>
        match readMember n r with
        | none => none
        | some (m, r) => (readMembers n r).map fun (ms, r) => (m :: ms, r)

end

/-- A text with one value and nothing else. -/
def read (cs : List Char) : Option (Json N) :=
  match readValue number (cs.length + 1) cs with
  | none => none
  | some (v, r) => if skip r = [] then some v else none

end

/-! ## What is written is read -/

/-- The reader knows the numbers and the escapes of a serialiser. -/
structure Knows (number : List Char → Option (N × List Char)) (k : Code N) (chars : CharCode) :
    Prop where
  num : ∀ n r, Delim r → number (k.num n ++ r) = some (n, r)
  quote : k.quote = chars.quote
  esc : ∀ c r, readChar (chars.esc c ++ r) = some (c, r)

theorem expect_ne {c d : Char} (h : c ≠ d) (cs : List Char) : expect d (c :: cs) = none := by
  rw [expect, if_neg h]

theorem skip_cons {c : Char} (h : isSpace c = false) (cs : List Char) :
    skip (c :: cs) = c :: cs := by
  rw [skip, dropWhile_cons, if_neg (by rw [h]; exact Bool.false_ne_true)]

/-- A character of a number is no white space and begins nothing else. -/
theorem numChar_ne {c : Char} (h : isNumChar c = true) : isSpace c = false ∧ c ≠ '"' ∧ c ≠ '[' ∧
    c ≠ '{' ∧ c ≠ ']' ∧ c ≠ '}' ∧ c ≠ 'n' ∧ c ≠ 't' ∧ c ≠ 'f' := by
  refine ⟨?_, ?_, ?_, ?_, ?_, ?_, ?_, ?_, ?_⟩
  · by_contra hspace
    rw [not_eq_false, isSpace, or_eq_true, or_eq_true, or_eq_true,
      decide_eq_true_iff, decide_eq_true_iff, decide_eq_true_iff, decide_eq_true_iff] at hspace
    rcases hspace with ((rfl | rfl) | rfl) | rfl <;> exact absurd h (by decide)
  all_goals
    rintro rfl
    exact absurd h (by decide)

variable {number : List Char → Option (N × List Char)} {k : Code N} {chars : CharCode}

/-- A word of the code is never empty. -/
theorem esc_ne_nil (k : CharCode) (c : Char) : k.esc c ≠ [] := by
  intro h
  have hhead := k.esc_head c ['"'] []
  rw [h] at hhead
  exact hhead rfl

theorem readBody_body (hk : Knows number k chars) (r : List Char) : ∀ {s : List Char} {n : ℕ},
    s.length < n → readBody n (chars.body s ++ r) = some (s, r)
  | s, 0, h => absurd h (Nat.not_lt_zero _)
  | [], n + 1, _ => by
    rw [readBody, CharCode.body, singleton_append, expect_self]
  | c :: s, n + 1, h => by
    have hquote : expect '"' (chars.esc c ++ (chars.body s ++ r)) = none := by
      have hhead := chars.esc_head c (chars.body s ++ r)
      rcases he : chars.esc c ++ (chars.body s ++ r) with _ | ⟨d, t⟩
      · rfl
      · rw [he] at hhead
        refine expect_ne ?_ t
        rintro rfl
        exact hhead t rfl
    rw [readBody, CharCode.body, append_assoc, hquote, hk.esc]
    simp only
    rw [readBody_body hk r (Nat.lt_of_succ_lt_succ h)]
    rfl

/-- Every character of a string takes room in its text. -/
theorem length_body (k : CharCode) : ∀ s : List Char, s.length < (k.body s).length
  | [] => Nat.zero_lt_succ _
  | c :: s => by
    have hpos := length_pos_iff.mpr (esc_ne_nil k c)
    have hs := length_body k s
    rw [CharCode.body, length_append, length_cons]
    omega

theorem succ_of_lt {k n : ℕ} (h : k < n) : ∃ m, n = m + 1 := ⟨n - 1, by omega⟩

/-- A value is read off the front of a text. -/
def Read (number : List Char → Option (N × List Char)) (k : Code N) (v : Json N) : Prop :=
  ∀ n r, Delim r → (k.render v ++ r).length < n →
    readValue number n (k.render v ++ r) = some (v, r)

theorem readItems_renderItems {xs : List (Json N)} (hxs : ∀ x ∈ xs, Read number k x)
    (r : List Char) : ∀ {n : ℕ}, (k.renderItems xs ++ r).length < n →
      readItems number n (k.renderItems xs ++ r) = some (xs, r) := by
  induction xs with
  | nil =>
    intro n hn
    obtain ⟨n, rfl⟩ := succ_of_lt hn
    rw [Code.renderItems, singleton_append, readItems, skip_cons (by decide), expect_self]
  | cons x xs ih =>
    intro n hn
    obtain ⟨n, rfl⟩ := succ_of_lt hn
    rw [Code.renderItems, cons_append, append_assoc] at hn ⊢
    rw [length_cons, length_append] at hn
    rw [readItems, skip_cons (by decide), expect_ne (by decide), expect_self]
    simp only
    rw [hxs x mem_cons_self _ _ (k.delim_renderItems xs r) (by rw [length_append]; omega)]
    simp only
    rw [ih (fun y hy => hxs y (mem_cons_of_mem _ hy)) (by omega)]
    rfl

theorem readMember_render (hk : Knows number k chars) {name : String} {x : Json N}
    (hx : Read number k x) {r : List Char} (hr : Delim r) {n : ℕ}
    (hn : (k.quote name ++ (':' :: (k.render x ++ r))).length < n) :
    readMember number n (k.quote name ++ (':' :: (k.render x ++ r))) = some ((name, x), r) := by
  obtain ⟨n, rfl⟩ := succ_of_lt hn
  have hbody := length_body chars name.toList
  rw [hk.quote, CharCode.quote, cons_append, length_cons, length_append,
    length_cons] at hn
  rw [hk.quote, CharCode.quote, cons_append, readMember, skip_cons (by decide), expect_self]
  simp only
  rw [readBody_body hk _ (by omega)]
  simp only
  rw [skip_cons (by decide), expect_self]
  simp only
  rw [hx _ _ hr (by omega), String.ofList_toList]
  rfl

theorem readMembers_renderMembers (hk : Knows number k chars) {ms : List (String × Json N)}
    (hms : ∀ m ∈ ms, Read number k m.2) (r : List Char) : ∀ {n : ℕ},
    (k.renderMembers ms ++ r).length < n →
      readMembers number n (k.renderMembers ms ++ r) = some (ms, r) := by
  induction ms with
  | nil =>
    intro n hn
    obtain ⟨n, rfl⟩ := succ_of_lt hn
    rw [Code.renderMembers, singleton_append, readMembers, skip_cons (by decide), expect_self]
  | cons m ms ih =>
    intro n hn
    obtain ⟨name, x⟩ := m
    obtain ⟨n, rfl⟩ := succ_of_lt hn
    simp only [Code.renderMembers, cons_append, append_assoc, length_cons] at hn ⊢
    rw [readMembers, skip_cons (by decide), expect_ne (by decide), expect_self]
    simp only
    have hx : Read number k x := hms _ mem_cons_self
    rw [readMember_render hk hx (k.delim_renderMembers ms r) (by omega)]
    simp only
    rw [ih (fun m hm => hms m (mem_cons_of_mem _ hm)) _]
    · rfl
    · simp only [length_append, length_cons] at hn ⊢
      omega

/-- The first character of a value is no white space, and closes nothing. -/
theorem render_first (k : Code N) (v : Json N) : ∃ c t, k.render v = c :: t ∧ isSpace c = false ∧
    c ≠ ']' ∧ c ≠ '}' := by
  obtain ⟨c, t, hv, hc⟩ := k.render_head v
  refine ⟨c, t, hv, ?_⟩
  rcases hc with ⟨hclass, -⟩ | ⟨-, hnum⟩
  · have hall : ∀ d, d = 'n' ∨ d = 't' ∨ d = 'f' ∨ d = '"' ∨ d = '[' ∨ d = '{' →
        isSpace d = false ∧ d ≠ ']' ∧ d ≠ '}' := by
      rintro d (rfl | rfl | rfl | rfl | rfl | rfl) <;> decide
    apply hall
    rcases v with _ | (_ | _) | _ | _ | _ | _ <;> simp [Code.headClass] at hclass <;> simp [← hclass]
  · obtain ⟨hspace, -, -, -, harr, hobj, -⟩ := numChar_ne hnum
    exact ⟨hspace, harr, hobj⟩

theorem readLiteral_append (word : List Char) (v : Json N) (r : List Char) :
    readLiteral word v (word ++ r) = some (v, r) := by
  rw [readLiteral, if_pos (prefix_append word r), drop_left]

/-- **A value is read off the front of a text.**  The cases are those of the first character. -/
theorem read_of_render (hk : Knows number k chars) (v : Json N) : Read number k v := by
  induction v with
  | null =>
    intro n r _ hn
    obtain ⟨n, rfl⟩ := succ_of_lt hn
    exact readLiteral_append "ull".toList .null r
  | bool b =>
    intro n r _ hn
    obtain ⟨n, rfl⟩ := succ_of_lt hn
    cases b with
    | true => exact readLiteral_append "rue".toList (.bool true) r
    | false => exact readLiteral_append "alse".toList (.bool false) r
  | num m =>
    intro n r hr hn
    obtain ⟨n, rfl⟩ := succ_of_lt hn
    have hread := hk.num m r hr
    rw [Code.render] at hn ⊢
    rcases hm : k.num m with _ | ⟨c, t⟩
    · exact absurd hm (k.num_ne_nil m)
    · rw [hm] at hread
      obtain ⟨hspace, hq, ha, ho, -, -, hn, ht, hf⟩ :=
        numChar_ne (k.num_chars m c (by rw [hm]; exact mem_cons_self))
      rw [cons_append] at hread ⊢
      rw [readValue, skip_cons hspace]
      simp only
      rw [if_neg hq, if_neg ha, if_neg ho, if_neg hn, if_neg ht, if_neg hf, hread]
      rfl
  | str s =>
    intro n r _ hn
    obtain ⟨n, rfl⟩ := succ_of_lt hn
    have hbody := length_body chars s.toList
    rw [Code.render, hk.quote, CharCode.quote, cons_append] at hn ⊢
    rw [length_cons, length_append] at hn
    rw [readValue, skip_cons (by decide)]
    simp only
    rw [if_pos trivial, readBody_body hk r (by omega)]
    simp only [Option.map_some, String.ofList_toList]
  | arr items ih =>
    intro n r _ hn
    obtain ⟨n, rfl⟩ := succ_of_lt hn
    rcases items with _ | ⟨x, xs⟩
    · rfl
    · rw [Code.render, cons_append, append_assoc] at hn ⊢
      rw [length_cons] at hn
      obtain ⟨c, t, hx, hspace, hne, -⟩ := render_first k x
      have hopen : expect ']' (skip (k.render x ++ (k.renderItems xs ++ r))) = none := by
        rw [hx, cons_append, skip_cons hspace, expect_ne hne]
      rw [readValue, skip_cons (by decide)]
      simp only
      rw [if_neg (by decide), if_pos trivial, hopen]
      simp only
      rw [ih x mem_cons_self _ _ (k.delim_renderItems xs r) (by omega)]
      simp only
      rw [readItems_renderItems (fun y hy => ih y (mem_cons_of_mem _ hy)) r]
      · rfl
      · rw [length_append] at hn
        omega
  | obj members ih =>
    intro n r _ hn
    obtain ⟨n, rfl⟩ := succ_of_lt hn
    rcases members with _ | ⟨⟨name, x⟩, ms⟩
    · rfl
    · simp only [Code.render, cons_append, append_assoc, length_cons] at hn ⊢
      have hx : Read number k x := ih _ mem_cons_self
      have hopen : expect '}' (skip (k.quote name ++ ':' :: (k.render x ++ (k.renderMembers ms ++ r))))
          = none := by
        rw [hk.quote, CharCode.quote, cons_append, skip_cons (by decide), expect_ne (by decide)]
      rw [readValue, skip_cons (by decide)]
      simp only
      rw [if_neg (by decide), if_neg (by decide), if_pos trivial, hopen]
      simp only
      rw [readMember_render hk hx (k.delim_renderMembers ms r) (by omega)]
      simp only
      rw [readMembers_renderMembers hk (fun m hm => ih m (mem_cons_of_mem _ hm)) r]
      · rfl
      · simp only [length_append, length_cons] at hn ⊢
        omega

/-- **What a serialiser writes is read back.** -/
theorem read_render (hk : Knows number k chars) (v : Json N) :
    read number (k.render v) = some v := by
  have hread := read_of_render hk v ((k.render v).length + 1) [] Delim.nil
    (by rw [append_nil]; exact Nat.lt_succ_self _)
  rw [append_nil] at hread
  rw [read, hread]
  rfl

/-! ## Backslash escapes -/

theorem hex?_hexDigit : ∀ d < 16, hex? (hexDigit d) = some d := by decide

theorem codeUnit_hexDigits {n : ℕ} (h : n < 65536) (r : List Char) :
    codeUnit (hexDigit (n / 4096) :: hexDigit (n / 256 % 16) :: hexDigit (n / 16 % 16) ::
      hexDigit (n % 16) :: r) = some (n, r) := by
  have hn : (((0 * 16 + n / 4096) * 16 + n / 256 % 16) * 16 + n / 16 % 16) * 16 + n % 16 = n := by
    omega
  simp only [codeUnit, Digits.read, hex?_hexDigit _ (show n / 4096 < 16 by omega),
    hex?_hexDigit _ (show n / 256 % 16 < 16 by omega), hex?_hexDigit _ (show n / 16 % 16 < 16 by omega),
    hex?_hexDigit _ (show n % 16 < 16 by omega), hn]

/-- No character is half of a pair. -/
theorem isSurrogate_toNat (c : Char) : isSurrogate c.toNat = false := by
  have hvalid : c.toNat < 0xD800 ∨ 0xDFFF < c.toNat ∧ c.toNat < 0x110000 := c.valid
  rw [isSurrogate, and_eq_false_iff, decide_eq_false_iff_not, decide_eq_false_iff_not]
  omega

/-- A serialiser that escapes the control characters is understood. -/
theorem readChar_backslash {uni : Char → Bool} (huni : ∀ c, uni c = true → c.toNat < 65536)
    (hcontrol : ∀ c : Char, c.toNat < 32 → uni c = true) (c : Char) (r : List Char) :
    readChar (backslash uni c ++ r) = some (c, r) := by
  unfold backslash
  split
  · rename_i letter hshort
    unfold shortEscape at hshort
    repeat' split at hshort
    all_goals first | (injection hshort with hl; subst_vars; rfl) | nomatch hshort
  · rename_i hshort
    split
    · rename_i hu
      show readUnicode (hexDigit (c.toNat / 4096) :: hexDigit (c.toNat / 256 % 16) ::
        hexDigit (c.toNat / 16 % 16) :: hexDigit (c.toNat % 16) :: r) = _
      rw [readUnicode, codeUnit_hexDigits (huni c hu)]
      simp only
      rw [if_neg (by rw [isSurrogate_toNat]; exact false_ne_true), Char.ofNat_toNat]
    · rename_i hu
      have hslash : c ≠ '\\' := by
        rintro rfl
        exact absurd hshort (by decide)
      show readChar (c :: r) = _
      rw [readChar, if_neg hslash, if_neg fun h => hu (hcontrol c h)]

/-! ## Numbers as they are written -/

/-- At least one digit, and what follows. -/
def someDigits : List Char → Option (List Char)
  | [] => none
  | c :: r => if c.isDigit then some (r.dropWhile Char.isDigit) else none

/-- The grammar of numbers: no zeros in front, digits after a point and in an exponent. -/
def isNumberText (cs : List Char) : Bool :=
  let unsigned := (expect '-' cs).getD cs
  let afterInt := (expect '0' unsigned).or (someDigits unsigned)
  let afterFraction := afterInt.bind fun r =>
    match expect '.' r with
    | some r => someDigits r
    | none => some r
  let afterExponent := afterFraction.bind fun r =>
    match (expect 'e' r).or (expect 'E' r) with
    | some r => someDigits (((expect '+' r).or (expect '-' r)).getD r)
    | none => some r
  decide (afterExponent = some []) && cs.all isNumChar

/-- The text of a number. -/
abbrev NumText := { cs : List Char // isNumberText cs = true }

/-- A serialiser that writes numbers as they are. -/
def NumText.code : NumCode NumText where
  num := Subtype.val
  num_injective := Subtype.val_injective
  num_ne_nil := by
    rintro ⟨cs, hcs⟩ rfl
    exact absurd hcs (by decide)
  num_chars := by
    rintro ⟨cs, hcs⟩ c hc
    rw [isNumberText, and_eq_true, all_eq_true] at hcs
    exact hcs.2 c hc

def readNumText (cs : List Char) : Option (NumText × List Char) :=
  if h : isNumberText (cs.takeWhile isNumChar) = true then
    some (⟨cs.takeWhile isNumChar, h⟩, cs.dropWhile isNumChar)
  else none

/-- A number ends where a character comes that no number has. -/
theorem readNumText_append (n : NumText) {r : List Char} (hr : Delim r) :
    readNumText (n.val ++ r) = some (n, r) := by
  have hchars : ∀ c ∈ n.val, isNumChar c = true := NumText.code.num_chars n
  have htake : r.takeWhile isNumChar = [] := by
    rcases r with _ | ⟨c, t⟩
    · rfl
    · rw [takeWhile_cons, if_neg (by rw [hr c t rfl]; exact false_ne_true)]
  have hdrop : r.dropWhile isNumChar = r := by
    rcases r with _ | ⟨c, t⟩
    · rfl
    · rw [dropWhile_cons, if_neg (by rw [hr c t rfl]; exact false_ne_true)]
  have hrun : (n.val ++ r).takeWhile isNumChar = n.val := by
    rw [takeWhile_append_of_pos hchars, htake, append_nil]
  have hrest : (n.val ++ r).dropWhile isNumChar = r := by
    rw [dropWhile_append_of_pos hchars, hdrop]
  simp only [readNumText, hrun, hrest, n.property, dif_pos]

theorem knows_numText {uni : Char → Bool} (huni : ∀ c, uni c = true → c.toNat < 65536)
    (hcontrol : ∀ c : Char, c.toNat < 32 → uni c = true) :
    Knows readNumText ((CharCode.ofUni uni huni).code NumText.code) (CharCode.ofUni uni huni) where
  num n _ hr := readNumText_append n hr
  quote := rfl
  esc c r := readChar_backslash huni hcontrol c r

/-! ## Bytes -/

/-- The characters of a text in UTF-8; a byte that is part of none is read as the replacement
    character. -/
def ofUtf8 : ℕ → List UInt8 → List Char
  | 0, _ => []
  | _ + 1, [] => []
  | n + 1, b :: bs =>
    match (b :: bs).toByteArray.utf8DecodeChar? 0 with
    | some c => c :: ofUtf8 n ((b :: bs).drop c.utf8Size)
    | none => '�' :: ofUtf8 n bs

def toUtf8 (cs : List Char) : List UInt8 := cs.flatMap String.utf8EncodeChar

/-- **A text is read back from its bytes.** -/
theorem ofUtf8_toUtf8 : ∀ (cs : List Char) {n : ℕ}, (toUtf8 cs).length ≤ n →
    ofUtf8 n (toUtf8 cs) = cs
  | [], 0, _ => rfl
  | [], _ + 1, _ => rfl
  | c :: cs, n, h => by
    have hsplit : toUtf8 (c :: cs) = String.utf8EncodeChar c ++ toUtf8 cs := flatMap_cons
    have hsize := String.length_utf8EncodeChar c
    have hpos := c.utf8Size_pos
    rw [hsplit, length_append, hsize] at h
    rw [hsplit]
    obtain ⟨n, rfl⟩ : ∃ m, n = m + 1 := ⟨n - 1, by omega⟩
    have hdecode : (String.utf8EncodeChar c ++ toUtf8 cs).toByteArray.utf8DecodeChar? 0 = some c := by
      rw [toByteArray_append]
      exact ByteArray.utf8DecodeChar?_utf8EncodeChar_append
    have hdrop : (String.utf8EncodeChar c ++ toUtf8 cs).drop c.utf8Size = toUtf8 cs := by
      rw [← hsize, drop_left]
    rcases hbytes : String.utf8EncodeChar c ++ toUtf8 cs with _ | ⟨b, bs⟩
    · have hlength := congrArg List.length hbytes
      rw [length_append, hsize, length_nil] at hlength
      omega
    · rw [hbytes] at hdecode hdrop
      rw [ofUtf8, hdecode]
      simp only
      rw [hdrop, ofUtf8_toUtf8 cs (by omega)]

end JsonTree
