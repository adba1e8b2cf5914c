/-
  Numbers and strings as ECMAScript writes them, and the order it sorts strings in.

  * **`NumberText`** — `Number::toString`, which takes the fewest digits that still read back as the
    number: what a reader of decimals may expect of it.  `NumberText.exact` writes all digits;
  * `stringText` — `JSON.stringify` of a string;
  * `sortNames` — `sort()` compares strings by their UTF-16 code units.
-/
import FalseFlag.Lib.Binary
import FalseFlag.Lib.Decimal
import FalseFlag.Lib.Ecma
import FalseFlag.Lib.Utf16
import Mathlib.Data.Nat.Prime.Basic
import Mathlib.Tactic.FieldSimp

namespace Ecma

open List Binary Decimal JsonTree Nat Rat

/-! ## Number::toString -/

/-- **`Number::toString`**, base ten, of a finite number, as far as a reader depends on it: the text
    is made of digits, signs, points and exponents, a digit comes first, or a minus and a digit, and
    the text of a binary64 number denotes a decimal that rounds to the number. -/
class NumberText where
  numberToString : ℚ → List Char
  numberToString_chars : ∀ q, ∀ c ∈ numberToString q, isNumChar c = true
  numberToString_head : ∀ q, ∃ c cs, numberToString q = c :: cs ∧
    (c.isDigit = true ∨ c = '-' ∧ ∃ d ds, cs = d :: ds ∧ d.isDigit = true)
  read_numberToString : ∀ {q}, binary64.round q = q →
    ∃ d, Decimal.read (numberToString q) = some d ∧ binary64.round d = q

export NumberText (numberToString numberToString_chars numberToString_head read_numberToString)

/-! ### All digits -/

/-- The exponent part of a number: `e`, its sign, its digits. -/
def exponentText (x : ℤ) : List Char :=
  'e' :: (if x < 0 then '-' else '+') :: toDigits 10 x.natAbs

/-- `n / d`, for a power of two `d`: it has as many places as `d` has bits. -/
def fractionText (n d : ℕ) : List Char :=
  toDigits 10 (n * 5 ^ d.log2) ++ exponentText (-d.log2)

/-- A number, with all its digits. -/
def exactText (q : ℚ) : List Char :=
  if q < 0 then '-' :: fractionText q.num.natAbs q.den else fractionText q.num.natAbs q.den

/-- The denominator of a binary64 number is a power of two. -/
theorem den_eq_pow {q : ℚ} (hq : binary64.round q = q) : q.den = 2 ^ q.den.log2 := by
  have hdvd : ∃ n : ℕ, q.den ∣ 2 ^ n := by
    obtain ⟨m, e, hme, -, -⟩ := hq ▸ binary64.round_representable q
    rw [hme]
    rcases le_or_gt 0 e with he | he
    · obtain ⟨n, rfl⟩ := Int.eq_ofNat_of_zero_le he
      have hint : (m : ℚ) * 2 ^ (n : ℤ) = ((m * 2 ^ n : ℤ) : ℚ) := by
        push_cast
        rfl
      exact ⟨0, by rw [hint, den_intCast]; exact one_dvd _⟩
    · obtain ⟨n, hn⟩ : ∃ n : ℕ, e = -(n : ℤ) := ⟨(-e).toNat, by omega⟩
      have hdiv : (m : ℚ) * 2 ^ e = divInt m (2 ^ n : ℕ) := by
        rw [hn, zpow_neg, zpow_natCast, divInt_eq_div, div_eq_mul_inv]
        push_cast
        rfl
      rw [hdiv]
      exact ⟨n, by exact_mod_cast den_dvd m (2 ^ n : ℕ)⟩
  obtain ⟨n, hn⟩ := hdvd
  obtain ⟨a, -, ha⟩ := (dvd_prime_pow prime_two).mp hn
  rw [ha, log2_two_pow]

/-- A fraction reads back. -/
theorem unsigned_fractionText (n k : ℕ) :
    unsigned? (fractionText n (2 ^ k)) = some ((n : ℚ) / (2 ^ k : ℕ)) := by
  have hten : (10 : ℚ) ^ k = 2 ^ k * 5 ^ k := by
    rw [← mul_pow]
    norm_num
  rw [fractionText, log2_two_pow, exponentText,
    unsigned_whole (allDigits_toDigits _) toDigits_ne_nil (exponent_signed _), value_toDigits,
    scaled, zpow_neg, zpow_natCast, hten]
  push_cast
  congr 1
  field_simp

theorem fractionText_head (n d : ℕ) : ∃ c cs, fractionText n d = c :: cs ∧ c.isDigit = true := by
  obtain ⟨c, cs, hcs⟩ := exists_cons_of_ne_nil (toDigits_ne_nil (b := 10) (n := n * 5 ^ d.log2))
  refine ⟨c, cs ++ exponentText (-d.log2), by rw [fractionText, hcs, cons_append], ?_⟩
  exact allDigits_toDigits _ c (by rw [hcs]; exact mem_cons_self ..)

theorem fractionText_chars (n d : ℕ) : ∀ c ∈ fractionText n d, isNumChar c = true := by
  have hdigits : ∀ m, ∀ c ∈ toDigits 10 m, isNumChar c = true :=
    fun m c hc => by simp [isNumChar, allDigits_toDigits m c hc]
  refine forall_mem_append.mpr ⟨hdigits _, forall_mem_cons.mpr ⟨by decide,
    forall_mem_cons.mpr ⟨?_, hdigits _⟩⟩⟩
  split <;> decide

/-- Numbers with all their digits read back. -/
theorem read_exactText {q : ℚ} (hq : binary64.round q = q) :
    Decimal.read (exactText q) = some q := by
  have hread := unsigned_fractionText q.num.natAbs q.den.log2
  rw [← den_eq_pow hq, cast_natAbs] at hread
  have hnum := num_div_den q
  unfold exactText
  split
  · rename_i hneg
    rw [abs_of_neg (num_neg.mpr hneg), Int.cast_neg, neg_div, hnum] at hread
    rw [Decimal.read, sign, if_pos rfl, hread]
    simp
  · rename_i hpos
    rw [abs_of_nonneg (num_nonneg.mpr (not_lt.mp hpos)), hnum] at hread
    obtain ⟨c, cs, htext, hc⟩ := fractionText_head q.num.natAbs q.den
    rw [Decimal.read, htext, sign_digit hc, ← htext, hread]
    simp

/-- A printer that writes all digits. -/
@[reducible] def NumberText.exact : NumberText where
  numberToString := exactText
  numberToString_chars q := by
    unfold exactText
    split
    · exact forall_mem_cons.mpr ⟨by decide, fractionText_chars _ _⟩
    · exact fractionText_chars _ _
  numberToString_head q := by
    obtain ⟨d, ds, hd, hdigit⟩ := fractionText_head q.num.natAbs q.den
    unfold exactText
    split
    · exact ⟨'-', _, rfl, .inr ⟨rfl, d, ds, hd, hdigit⟩⟩
    · exact ⟨d, ds, hd, .inl hdigit⟩
  read_numberToString hq := ⟨_, read_exactText hq, hq⟩

/-! ## Strings -/

/-- The characters that `JSON.stringify` writes as `\\uXXXX`, if there is no shorter way. -/
def isControl (c : Char) : Bool := c.toNat < 0x20

/-- `JSON.stringify` of a string. -/
def stringText (s : String) : List Char := '"' :: (s.toList.flatMap (backslash isControl) ++ ['"'])

theorem isControl_lt (c : Char) (h : isControl c = true) : c.toNat < 65536 := by
  have := of_decide_eq_true h
  omega

/-- White space, as `\s` of a regular expression has it. -/
def isWhiteSpace (c : Char) : Bool :=
  [0x09, 0x0A, 0x0B, 0x0C, 0x0D, 0x20, 0xA0, 0x1680, 0x2028, 0x2029, 0x202F, 0x205F, 0x3000,
    0xFEFF].contains c.toNat || (0x2000 ≤ c.toNat && c.toNat ≤ 0x200A)

/-- `replace(/^\s+/, "")`. -/
def trimStart (cs : List Char) : List Char := cs.dropWhile isWhiteSpace

theorem trimStart_replicate (n : ℕ) (cs : List Char) :
    trimStart (List.replicate n ' ' ++ cs) = trimStart cs := by
  apply dropWhile_append_of_pos
  intro c hc
  rw [eq_of_mem_replicate hc]
  decide

theorem isWhiteSpace_trimStart {cs t : List Char} {c : Char} (h : trimStart cs = c :: t) :
    isWhiteSpace c = false := by
  have hhead := head?_dropWhile_not isWhiteSpace cs
  rw [show cs.dropWhile isWhiteSpace = c :: t from h] at hhead
  exact hhead

/-- The code units of a string. -/
def units (s : String) : List UInt16 := s.toList.flatMap Utf16.encode

/-- Sort by name, as `sort()` does. -/
def sortNames {α : Type} (ms : List (String × α)) : List (String × α) :=
  ms.insertionSort fun a b => units a.1 ≤ units b.1

/-- Sorting keeps the members. -/
theorem perm_sortNames {α : Type} (ms : List (String × α)) : (sortNames ms).Perm ms :=
  perm_insertionSort _ _

/-- Only the names decide. -/
theorem map_sortNames {α β : Type} (f : String → α → β) (ms : List (String × α)) :
    sortNames (ms.map fun m => (m.1, f m.1 m.2)) = (sortNames ms).map fun m => (m.1, f m.1 m.2) := by
  symm
  apply map_insertionSort
  intro a _ b _
  exact Iff.rfl

end Ecma
