/-
  Strings of UTF-16 code units.

  A JavaScript string is any list of code units; surrogates need not come in pairs.  Two things turn
  one into characters:
  * `scalars` — the conversion to scalar values an encoder makes: a pair is one character, a
    surrogate that is not part of one becomes the replacement character;
  * a JSON text — where the reader of one language keeps the code units (`readUnits`) and the reader
    of another makes characters as it goes (`readBody`).

  `readBody_of_readUnits` says that the second is the first followed by `scalars`.  The readers do
  not walk in step: a pair written as two escapes is one step for one and two for the other, and
  after an escaped high surrogate the character reader LOOKS AHEAD.
-/
import FalseFlag.Lib.JsonRead

namespace Utf16

open List JsonTree Digits Char

/-! ## Code units and characters -/

def isHigh (u : UInt16) : Bool := 0xD800 ≤ u.toNat && u.toNat < 0xDC00

def isLow (u : UInt16) : Bool := 0xDC00 ≤ u.toNat && u.toNat < 0xE000

/-- The character of a pair. -/
def pair (high low : UInt16) : Char :=
  ofNat (0x10000 + (high.toNat - 0xD800) * 0x400 + (low.toNat - 0xDC00))

/-- The character of a code unit on its own. -/
def single (u : UInt16) : Char := if isSurrogate u.toNat then '�' else ofNat u.toNat

/-- The scalar values of a string. -/
def scalars : List UInt16 → List Char
  | [] => []
  | [u] => [single u]
  | u :: v :: us =>
    if isHigh u && isLow v then pair u v :: scalars us else single u :: scalars (v :: us)

/-- The code units of a character. -/
def encode (c : Char) : List UInt16 :=
  if c.toNat < 0x10000 then [UInt16.ofNat c.toNat]
  else [UInt16.ofNat (0xD800 + (c.toNat - 0x10000) / 0x400),
    UInt16.ofNat (0xDC00 + (c.toNat - 0x10000) % 0x400)]

variable {n : ℕ}

theorem toNat_ofNat (h : n < 65536) : (UInt16.ofNat n).toNat = n :=
  UInt16.toNat_ofNat_of_lt' h

theorem valid_toNat (c : Char) : c.toNat < 0xD800 ∨ 0xDFFF < c.toNat ∧ c.toNat < 0x110000 := c.valid

variable {u : UInt16} {us : List UInt16}

/-- A code unit that starts no pair stands for itself. -/
theorem scalars_cons (h : isHigh u = false ∨ ∀ v ∈ us.head?, isLow v = false) :
    scalars (u :: us) = single u :: scalars us := by
  cases us with
  | nil => rfl
  | cons v us =>
    rw [scalars, if_neg]
    intro hpair
    rw [Bool.and_eq_true] at hpair
    rcases h with h | h
    · rw [h] at hpair
      nomatch hpair.1
    · rw [h v rfl] at hpair
      nomatch hpair.2

theorem scalars_pair {v : UInt16} (hu : isHigh u = true) (hv : isLow v = true) (us : List UInt16) :
    scalars (u :: v :: us) = pair u v :: scalars us := by
  rw [scalars, if_pos (by rw [hu, hv]; rfl)]

/-- A character of the basic plane is its own code unit. -/
theorem single_ofNat {c : Char} (h : c.toNat < 0x10000) :
    isHigh (UInt16.ofNat c.toNat) = false ∧ isLow (UInt16.ofNat c.toNat) = false ∧
      single (UInt16.ofNat c.toNat) = c := by
  have hvalid := valid_toNat c
  rw [isHigh, isLow, single, toNat_ofNat h, isSurrogate_toNat, if_neg Bool.false_ne_true,
    ofNat_toNat, Bool.and_eq_false_iff, Bool.and_eq_false_iff, decide_eq_false_iff_not,
    decide_eq_false_iff_not, decide_eq_false_iff_not, decide_eq_false_iff_not]
  refine ⟨by omega, by omega, rfl⟩

/-- **A character is read back from its code units**, whatever follows. -/
theorem scalars_encode (c : Char) (us : List UInt16) :
    scalars (encode c ++ us) = c :: scalars us := by
  have hvalid := valid_toNat c
  unfold encode
  split
  · rename_i h
    obtain ⟨hhigh, -, hsingle⟩ := single_ofNat h
    rw [singleton_append, scalars_cons (.inl hhigh), hsingle]
  · rename_i h
    have hu : 0xD800 + (c.toNat - 0x10000) / 0x400 < 0xDC00 := by omega
    have hv : 0xDC00 + (c.toNat - 0x10000) % 0x400 < 0xE000 := by omega
    have hu' := toNat_ofNat (show 0xD800 + (c.toNat - 0x10000) / 0x400 < 65536 by omega)
    have hv' := toNat_ofNat (show 0xDC00 + (c.toNat - 0x10000) % 0x400 < 65536 by omega)
    have hchar : 0x10000 + (0xD800 + (c.toNat - 0x10000) / 0x400 - 0xD800) * 0x400 +
        (0xDC00 + (c.toNat - 0x10000) % 0x400 - 0xDC00) = c.toNat := by omega
    show scalars (_ :: _ :: us) = _
    rw [scalars_pair, pair, hu', hv', hchar, ofNat_toNat]
    · rw [isHigh, hu', Bool.and_eq_true, decide_eq_true_eq, decide_eq_true_eq]
      exact ⟨by omega, hu⟩
    · rw [isLow, hv', Bool.and_eq_true, decide_eq_true_eq, decide_eq_true_eq]
      exact ⟨by omega, hv⟩

/-- The code units of a character do not start with the second half of a pair. -/
theorem encode_head (c : Char) : ∃ u us, encode c = u :: us ∧ isLow u = false := by
  have hvalid := valid_toNat c
  unfold encode
  split
  · rename_i h
    exact ⟨_, [], rfl, (single_ofNat h).2.1⟩
  · rename_i h
    refine ⟨_, _, rfl, ?_⟩
    rw [isLow, toNat_ofNat (by omega), Bool.and_eq_false_iff, decide_eq_false_iff_not]
    exact .inl (by omega)

/-! ## Strings in a JSON text -/

/-- What stands after a backslash, as code units. -/
def readUnitEscape : List Char → Option (List UInt16 × List Char)
  | [] => none
  | e :: r =>
    if e = 'u' then (codeUnit r).map fun (n, r) => ([UInt16.ofNat n], r)
    else (unescapeLetter e).map fun c => (encode c, r)

/-- One character of a string, or one escape. -/
def readUnit : List Char → Option (List UInt16 × List Char)
  | [] => none
  | c :: r =>
    if c = '\\' then readUnitEscape r
    else if c.toNat < 32 then none
    else some (encode c, r)

/-- The code units of a string up to the closing quote. -/
def readUnits : ℕ → List Char → Option (List UInt16 × List Char)
  | 0, _ => none
  | n + 1, cs =>
    match expect '"' cs with
    | some r => some ([], r)
    | none =>
      match readUnit cs with
      | none => none
      | some (us, r) => (readUnits n r).map fun (s, r) => (us ++ s, r)

variable {cs r : List Char}

theorem codeUnit_lt (h : codeUnit cs = some (n, r)) : n < 65536 := by
  have hhex : ∀ c d, hex? c = some d → d < 16 := by
    intro c d hd
    unfold hex? at hd
    split at hd
    · rename_i hc
      injection hd with hd
      rw [Char.isDigit, Bool.and_eq_true, decide_eq_true_eq, decide_eq_true_eq] at hc
      have hle : c.toNat ≤ 57 := hc.2
      omega
    · split at hd
      · rename_i hc
        injection hd with hd
        have hle : c.toNat ≤ 102 := hc.2
        omega
      · split at hd
        · rename_i hc
          injection hd with hd
          have hle : c.toNat ≤ 70 := hc.2
          omega
        · nomatch hd
  have hlt := lt_of_read hhex h
  omega

/-- What a reader of code units does in one step: one character, or one code unit written out. -/
theorem readUnit_cases (h : readUnit cs = some (us, r)) :
    (∃ c, us = encode c ∧ readChar cs = some (c, r) ∧ ∀ cs', cs ≠ '\\' :: 'u' :: cs') ∨
      ∃ cs' n, cs = '\\' :: 'u' :: cs' ∧ codeUnit cs' = some (n, r) ∧ us = [UInt16.ofNat n] := by
  cases cs with
  | nil => cases h
  | cons c cs =>
    rw [readUnit] at h
    split at h
    · rename_i hc
      subst hc
      cases cs with
      | nil => cases h
      | cons e cs =>
        rw [readUnitEscape] at h
        split at h
        · rename_i he
          subst he
          rcases hu : codeUnit cs with _ | ⟨n, r'⟩
          · rw [hu] at h
            cases h
          · rw [hu] at h
            injection h with h
            obtain ⟨hus, hr⟩ := Prod.mk.inj h
            exact .inr ⟨cs, n, rfl, by rw [hu, hr], hus.symm⟩
        · rename_i he
          rcases hl : unescapeLetter e with _ | c
          · rw [hl] at h
            cases h
          · rw [hl] at h
            injection h with h
            obtain ⟨hus, hr⟩ := Prod.mk.inj h
            refine .inl ⟨c, hus.symm, ?_, ?_⟩
            · rw [readChar, if_pos rfl, readEscape, if_neg he, hl, ← hr]
              rfl
            · intro cs' hcs'
              injection hcs' with _ hcs'
              injection hcs' with hcs' _
              exact he hcs'
    · rename_i hc
      split at h
      · cases h
      · rename_i hcontrol
        injection h with h
        obtain ⟨hus, hr⟩ := Prod.mk.inj h
        refine .inl ⟨c, hus.symm, ?_, ?_⟩
        · rw [readChar, if_neg hc, if_neg hcontrol, hr]
        · intro cs' hcs'
          injection hcs' with hcs' _
          exact hc hcs'

variable {high : ℕ}

/-- After a high surrogate: the next code unit is the second half of a pair iff it is written out
    where the reader of characters looks for it. -/
theorem isLow_of_readUnit
    (h : readUnit cs = some (us, r)) (hlow : readLow high cs = none) (hhigh : high < 0xDC00) :
    ∀ v ∈ us.head?, isLow v = false := by
  rcases readUnit_cases h with ⟨c, rfl, -, -⟩ | ⟨cs', n, rfl, hn, rfl⟩
  · obtain ⟨u, us', hus, hu⟩ := encode_head c
    rw [hus]
    intro v hv
    injection hv with hv
    exact hv ▸ hu
  · intro v hv
    injection hv with hv
    subst hv
    rw [readLow, hn] at hlow
    have hnone : surrogatePair high n = none := Option.map_eq_none_iff.mp hlow
    rw [surrogatePair] at hnone
    split at hnone
    · nomatch hnone
    · rename_i hpair
      rw [isLow, toNat_ofNat (codeUnit_lt hn), Bool.and_eq_false_iff, decide_eq_false_iff_not,
        decide_eq_false_iff_not]
      omega

/-- A step of the reader of code units, and the rest. -/
theorem readUnits_succ (hquote : expect '"' cs = none) (h : readUnits (n + 1) cs = some (us, r)) :
    ∃ us1 r1 us2, readUnit cs = some (us1, r1) ∧ readUnits n r1 = some (us2, r) ∧ us = us1 ++ us2 := by
  rw [readUnits, hquote] at h
  rcases hu : readUnit cs with _ | ⟨us1, r1⟩
  · rw [hu] at h
    nomatch h
  · rw [hu] at h
    obtain ⟨⟨us2, r2⟩, h2, heq⟩ := Option.map_eq_some_iff.mp h
    obtain ⟨hus, hr⟩ := Prod.mk.inj heq
    exact ⟨us1, r1, us2, rfl, by rw [h2, hr], hus.symm⟩

theorem readUnits_escape {r1 : List Char} {v : ℕ}
    (hv : codeUnit cs = some (v, r1)) (h : readUnits (n + 1) ('\\' :: 'u' :: cs) = some (us, r)) :
    ∃ us2, readUnits n r1 = some (us2, r) ∧ us = UInt16.ofNat v :: us2 := by
  obtain ⟨us1, r₁', us2, hu, h2, rfl⟩ := readUnits_succ rfl h
  have hunit : readUnit ('\\' :: 'u' :: cs) = some ([UInt16.ofNat v], r1) := by
    rw [readUnit, if_pos rfl, readUnitEscape, if_pos rfl, hv]
    rfl
  rw [hunit] at hu
  injection hu with hu
  obtain ⟨rfl, rfl⟩ := Prod.mk.inj hu
  exact ⟨us2, h2, rfl⟩

/-- The same of the whole rest of a string: it does not start with the second half of a pair. -/
theorem isLow_of_readUnits
    (h : readUnits n cs = some (us, r)) (hlow : readLow high cs = none) (hhigh : high < 0xDC00) :
    ∀ v ∈ us.head?, isLow v = false := by
  cases n with
  | zero => nomatch h
  | succ n =>
    rcases hquote : expect '"' cs with _ | r'
    · obtain ⟨us1, r1, us2, hu, -, rfl⟩ := readUnits_succ hquote h
      have hhead := isLow_of_readUnit hu hlow hhigh
      cases us1 with
      | cons v us1 => exact hhead
      | nil =>
        -- a step reads at least one code unit
        rcases readUnit_cases hu with ⟨c, hc, -, -⟩ | ⟨_, _, _, _, hc⟩
        · obtain ⟨u, us', hus, -⟩ := encode_head c
          rw [← hc] at hus
          nomatch hus
        · nomatch hc
    · rw [readUnits, hquote] at h
      injection h with h
      obtain ⟨rfl, -⟩ := Prod.mk.inj h
      exact nofun

theorem readLow_eq_some {c : Char} (h : readLow high cs = some (c, r)) :
    ∃ cs' low, cs = '\\' :: 'u' :: cs' ∧ codeUnit cs' = some (low, r) ∧ high < 0xDC00 ∧
      0xDC00 ≤ low ∧ low < 0xE000 ∧
      c = Char.ofNat (0x10000 + (high - 0xD800) * 0x400 + (low - 0xDC00)) := by
  unfold readLow at h
  split at h
  · rename_i cs'
    rcases hcode : codeUnit cs' with _ | ⟨low, r'⟩
    · rw [hcode] at h
      nomatch h
    · rw [hcode] at h
      obtain ⟨c', hpair, heq⟩ := Option.map_eq_some_iff.mp h
      obtain ⟨rfl, rfl⟩ := Prod.mk.inj heq
      rw [surrogatePair] at hpair
      split at hpair
      · rename_i hrange
        injection hpair with hpair
        exact ⟨cs', low, rfl, hcode, hrange.1, hrange.2.1, hrange.2.2, hpair.symm⟩
      · nomatch hpair
  · nomatch h

theorem readBody_succ {c : Char} {m : ℕ} (hquote : expect '"' cs = none)
    (h : readChar cs = some (c, r)) :
    readBody (m + 1) cs = (readBody m r).map fun (s, r) => (c :: s, r) := by
  rw [readBody, hquote, h]

/-- The character a written code unit is read as. -/
theorem readChar_escape {u : ℕ} (h : codeUnit cs = some (u, r)) :
    readChar ('\\' :: 'u' :: cs) =
      if isSurrogate u then some ((readLow u r).getD ('�', r)) else some (ofNat u, r) := by
  rw [readChar, if_pos rfl, readEscape, if_pos rfl, readUnicode, h]

/-- **Characters are the scalar values of the code units.**  Induction on the fuel of the reader of
    code units; a pair takes two of its steps. -/
theorem readBody_of_readUnits : ∀ {n m : ℕ} {cs r : List Char} {us : List UInt16}, n ≤ m →
    readUnits n cs = some (us, r) → readBody m cs = some (scalars us, r)
  | 0, _, _, _, _, _, h => by cases h
  | n + 1, 0, _, _, _, hm, _ => absurd hm (by omega)
  | n + 1, m + 1, cs, r, us, hm, h => by
    have hm' : n ≤ m := by omega
    rcases hquote : expect '"' cs with _ | r'
    · obtain ⟨us1, r1, us2, hu, h2, rfl⟩ := readUnits_succ hquote h
      rcases readUnit_cases hu with ⟨c, rfl, hc, -⟩ | ⟨cs', u, rfl, hcode, rfl⟩
      · -- one character for both
        rw [readBody_succ hquote hc, readBody_of_readUnits hm' h2, scalars_encode]
        rfl
      have hnat := toNat_ofNat (codeUnit_lt hcode)
      have hchar := readChar_escape hcode
      rw [singleton_append]
      rcases hs : isSurrogate u with _ | _
      · -- a code unit that is a character
        rw [hs, if_neg Bool.false_ne_true] at hchar
        rw [readBody_succ hquote hchar, readBody_of_readUnits hm' h2, scalars_cons, single, hnat, hs]
        · rfl
        · refine .inl ?_
          rw [isSurrogate, Bool.and_eq_false_iff, decide_eq_false_iff_not,
            decide_eq_false_iff_not] at hs
          rw [isHigh, hnat, Bool.and_eq_false_iff, decide_eq_false_iff_not, decide_eq_false_iff_not]
          omega
      rw [hs, if_pos rfl] at hchar
      rcases hlow : readLow u r1 with _ | ⟨c, r3⟩
      · -- a surrogate on its own
        rw [hlow, Option.getD_none] at hchar
        rw [readBody_succ hquote hchar, readBody_of_readUnits hm' h2, scalars_cons, single, hnat, hs]
        · rfl
        · rcases Nat.lt_or_ge u 0xDC00 with hhigh | hhigh
          · exact .inr (isLow_of_readUnits h2 hlow hhigh)
          · refine .inl ?_
            rw [isHigh, hnat, Bool.and_eq_false_iff, decide_eq_false_iff_not, decide_eq_false_iff_not]
            omega
      · -- both halves are written out: one step here, two there
        rw [hlow, Option.getD_some] at hchar
        obtain ⟨cs2, v, rfl, hv, hhigh, hlo, hhi, hc⟩ := readLow_eq_some hlow
        have hnat2 := toNat_ofNat (codeUnit_lt hv)
        cases n with
        | zero => cases h2
        | succ n =>
          obtain ⟨us3, h3, rfl⟩ := readUnits_escape hv h2
          rw [readBody_succ hquote hchar, readBody_of_readUnits (by omega) h3, scalars_pair, pair,
            hnat, hnat2, ← hc]
          · rfl
          · rw [isSurrogate, Bool.and_eq_true, decide_eq_true_eq, decide_eq_true_eq] at hs
            rw [isHigh, hnat, Bool.and_eq_true, decide_eq_true_eq, decide_eq_true_eq]
            exact ⟨hs.1, hhigh⟩
          · rw [isLow, hnat2, Bool.and_eq_true, decide_eq_true_eq, decide_eq_true_eq]
            exact ⟨hlo, hhi⟩
    · rw [readUnits, hquote] at h
      injection h with h
      obtain ⟨rfl, rfl⟩ := Prod.mk.inj h
      rw [readBody, hquote]
      rfl

/-! ## String literals -/

/-- A JSON text that is one string, by a reader of what stands between the quotes. -/
def literal {α : Type} (body : ℕ → List Char → Option (α × List Char)) (text : List Char) :
    Option α :=
  match text with
  | [] => none
  | c :: cs =>
    if c = '"' then
      match body text.length cs with
      | some (s, []) => some s
      | _ => none
    else none

theorem literal_eq_some {α : Type} {body : ℕ → List Char → Option (α × List Char)}
    {text : List Char} {s : α} :
    literal body text = some s ↔ ∃ cs, text = '"' :: cs ∧ body text.length cs = some (s, []) := by
  constructor
  · intro h
    cases text with
    | nil => nomatch h
    | cons c cs =>
      rw [literal] at h
      split at h
      · rename_i hc
        subst hc
        refine ⟨cs, rfl, ?_⟩
        split at h
        · rename_i s' hs'
          injection h with h
          rw [hs', h]
        · nomatch h
      · nomatch h
  · rintro ⟨cs, rfl, h⟩
    rw [literal, if_pos rfl, h]

/-- Its characters. -/
def stringLiteral (text : List Char) : Option (List Char) := literal readBody text

/-- Its code units. -/
def unitsLiteral (text : List Char) : Option (List UInt16) := literal readUnits text

/-- **One literal, read in both ways.** -/
theorem stringLiteral_of_units {text : List Char}
    (h : unitsLiteral text = some us) : stringLiteral text = some (scalars us) := by
  obtain ⟨cs, rfl, hunits⟩ := literal_eq_some.mp h
  exact literal_eq_some.mpr ⟨cs, rfl, readBody_of_readUnits (Nat.le_refl _) hunits⟩

/-- A code unit, written out. -/
def escape (u : UInt16) : List Char :=
  ['\\', 'u', hexDigit (u.toNat / 4096), hexDigit (u.toNat / 256 % 16),
    hexDigit (u.toNat / 16 % 16), hexDigit (u.toNat % 16)]

/-- The string literal that writes every code unit out. -/
def escaped (us : List UInt16) : List Char := '"' :: (us.flatMap escape ++ ['"'])

theorem readUnit_escape (u : UInt16) (r : List Char) :
    readUnit (escape u ++ r) = some ([u], r) := by
  show readUnitEscape ('u' :: hexDigit (u.toNat / 4096) :: hexDigit (u.toNat / 256 % 16) ::
    hexDigit (u.toNat / 16 % 16) :: hexDigit (u.toNat % 16) :: r) = _
  rw [readUnitEscape, if_pos rfl, codeUnit_hexDigits u.toNat_lt]
  show some ([UInt16.ofNat u.toNat], r) = _
  rw [UInt16.ofNat_toNat]

theorem readUnits_escapes (r : List Char) : ∀ {us : List UInt16} {n : ℕ}, us.length < n →
    readUnits n (us.flatMap escape ++ '"' :: r) = some (us, r)
  | [], 0, h => absurd h (Nat.not_lt_zero _)
  | [], _ + 1, _ => rfl
  | u :: us, 0, h => absurd h (Nat.not_lt_zero _)
  | u :: us, n + 1, h => by
    have hquote : expect '"' (escape u ++ (us.flatMap escape ++ '"' :: r)) = none := rfl
    rw [flatMap_cons, append_assoc, readUnits, hquote, readUnit_escape]
    simp only
    rw [readUnits_escapes r (Nat.lt_of_succ_lt_succ h)]
    rfl

/-- **Every string of code units can be written.** -/
theorem unitsLiteral_escaped (us : List UInt16) : unitsLiteral (escaped us) = some us := by
  refine literal_eq_some.mpr ⟨_, rfl, readUnits_escapes [] ?_⟩
  have hlen : (us.flatMap escape).length = us.length * 6 := by
    simp [length_flatMap, escape]
  rw [escaped, length_cons, length_append, hlen]
  omega

/-! ## Code units as the strings of a tree -/

theorem scalars_flatMap_encode : ∀ cs : List Char, scalars (cs.flatMap encode) = cs
  | [] => rfl
  | c :: cs => by rw [flatMap_cons, scalars_encode, scalars_flatMap_encode cs]

theorem scalars_eq_nil : ∀ {us : List UInt16}, scalars us = [] → us = []
  | [], _ => rfl
  | [_], h => by cases h
  | u :: v :: us, h => by
    rw [scalars] at h
    split at h <;> cases h

theorem toNat_char (h : n.isValidChar) : (ofNat n).toNat = n := by
  rw [ofNat, dif_pos h]
  rfl

/-- A full stop is a code unit of its own. -/
theorem single_eq_stop : single u = '.' ↔ u = 0x2e := by
  constructor
  · intro h
    unfold single at h
    split at h
    · exact absurd h (by decide)
    · rename_i hu
      have hvalid : u.toNat.isValidChar := by
        rw [isSurrogate, Bool.and_eq_true, decide_eq_true_eq, decide_eq_true_eq] at hu
        have hlt := u.toNat_lt
        rw [Nat.isValidChar]
        omega
      have hnat := congrArg toNat h
      rw [toNat_char hvalid] at hnat
      exact UInt16.toNat_inj.mp hnat
  · rintro rfl
    decide

theorem pair_ne_stop {v : UInt16} (hu : isHigh u = true) (hv : isLow v = true) :
    pair u v ≠ '.' ∧ u ≠ 0x2e ∧ v ≠ 0x2e := by
  rw [isHigh, Bool.and_eq_true, decide_eq_true_eq, decide_eq_true_eq] at hu
  rw [isLow, Bool.and_eq_true, decide_eq_true_eq, decide_eq_true_eq] at hv
  refine ⟨fun h => ?_, ?_, ?_⟩
  · have hvalid : (0x10000 + (u.toNat - 0xD800) * 0x400 + (v.toNat - 0xDC00)).isValidChar := by
      rw [Nat.isValidChar]
      omega
    have hnat := congrArg toNat h
    rw [pair, toNat_char hvalid] at hnat
    have hstop : '.'.toNat = 46 := rfl
    omega
  · rintro rfl
    exact absurd hu.1 (by decide)
  · rintro rfl
    exact absurd hv.1 (by decide)

/-- The first part of a string starts as the string does, if it does not start with a full stop. -/
theorem splitOn_head {v : UInt16} {h : List UInt16} {t : List (List UInt16)}
    (hsplit : (v :: us).splitOn 0x2e = h :: t) : ∀ w ∈ h.head?, w = v := by
  rw [splitOn_cons_eq_if_modifyHead] at hsplit
  split at hsplit
  · obtain ⟨rfl, -⟩ := List.cons.inj hsplit
    exact nofun
  · obtain ⟨h', t', hsplit'⟩ := exists_cons_of_ne_nil (splitOn_ne_nil 0x2e us)
    rw [hsplit'] at hsplit
    obtain ⟨rfl, -⟩ := List.cons.inj hsplit
    intro w hw
    exact (Option.some.inj hw).symm

/-- The parts between full stops are the same parts, as code units and as characters. -/
theorem scalars_splitOn (us : List UInt16) :
    (us.splitOn 0x2e).map scalars = (scalars us).splitOn '.' := by
  fun_induction scalars us with
  | case1 => rfl
  | case2 u =>
    by_cases h : u = 0x2e
    · subst h
      decide
    · have hne : single u ≠ '.' := fun h' => h (single_eq_stop.mp h')
      rw [splitOn_cons_eq_if_modifyHead, if_neg (by simpa using h),
        splitOn_cons_eq_if_modifyHead, if_neg (by simpa using hne)]
      simp [scalars]
  | case3 u v us hpair ih =>
    obtain ⟨hu, hv⟩ := Bool.and_eq_true_iff.mp hpair
    obtain ⟨hstop, hu', hv'⟩ := pair_ne_stop hu hv
    rw [splitOn_cons_eq_if_modifyHead, if_neg (by simpa using hu'),
      splitOn_cons_eq_if_modifyHead, if_neg (by simpa using hv'),
      splitOn_cons_eq_if_modifyHead, if_neg (by simpa using hstop), ← ih]
    obtain ⟨h, t, hsplit⟩ := exists_cons_of_ne_nil (splitOn_ne_nil 0x2e us)
    rw [hsplit]
    simp [scalars_pair hu hv]
  | case4 u v us hpair ih =>
    obtain ⟨h, t, hsplit⟩ := exists_cons_of_ne_nil (splitOn_ne_nil 0x2e (v :: us))
    rw [splitOn_cons_eq_if_modifyHead (single u), ← ih, splitOn_cons_eq_if_modifyHead u,
      hsplit]
    by_cases hu : u = 0x2e
    · subst hu
      rw [if_pos (by decide), if_pos (by decide)]
      rfl
    · have hne : single u ≠ '.' := fun h' => hu (single_eq_stop.mp h')
      rw [if_neg (by simpa using hu), if_neg (by simpa using hne)]
      -- the code unit stays alone in its part
      have hcons : scalars (u :: h) = single u :: scalars h := by
        refine scalars_cons ?_
        by_cases hhigh : isHigh u = true
        · refine .inr fun w hw => ?_
          rw [splitOn_head hsplit w hw]
          simpa [hhigh] using hpair
        · exact .inl (by simpa using hhigh)
      simp [hcons]

instance : Strings (List UInt16) where
  text us := String.ofList (scalars us)
  ofText s := s.toList.flatMap encode
  text_ofText s := by rw [scalars_flatMap_encode, String.ofList_toList]
  ofText_empty h := scalars_eq_nil (String.ofList_eq_empty_iff.mp h)
  split us := us.splitOn 0x2e
  text_split us := by rw [String.toList_ofList, ← scalars_splitOn, map_map]; rfl
  startsWith us head := head.isPrefixOf us

/-- A serialiser that writes every code unit out. -/
def code {N : Type} (num : NumCode N) : Code N (List UInt16) where
  toNumCode := num
  quote := escaped
  quote_head _ := ⟨_, rfl⟩
  quote_cancel {s t} r r' h := by
    have h : s.flatMap escape ++ '"' :: r = t.flatMap escape ++ '"' :: r' := by
      simpa [escaped] using h
    have hs := readUnits_escapes r (Nat.lt_succ_of_le (Nat.le_max_left s.length t.length))
    have ht := readUnits_escapes r' (Nat.lt_succ_of_le (Nat.le_max_right s.length t.length))
    rw [h, ht] at hs
    injection hs with hs
    obtain ⟨hst, hr⟩ := Prod.mk.inj hs
    exact ⟨hst.symm, hr.symm⟩

end Utf16
