/-
  Decimal numerals, and what one denotes.

  `Decimal.read` takes a sign, digits with a point somewhere among them, and an exponent.  All
  digits together are one integer, and the point only moves the exponent.
  * **`unsigned_whole`** — digits and an exponent denote the digits times a power of ten.
-/
import Mathlib.Algebra.Order.Field.Power
import Mathlib.Data.Rat.Lemmas
import Mathlib.Tactic.NormNum

namespace Decimal

open List Nat Char

/-- `s * 10 ^ e`. -/
def scaled (s : ℕ) (e : ℤ) : ℚ := (s : ℚ) * 10 ^ e

/-! ## Reading -/

/-- The number that digits stand for. -/
def value (ds : List Char) : ℕ := ofDigitChars 10 ds 0

/-- One or more digits. -/
def digits? (cs : List Char) : Option ℕ :=
  if cs ≠ [] ∧ cs.all isDigit then some (value cs) else none

/-- A sign that may be missing, and the rest. -/
def sign : List Char → ℤ × List Char
  | [] => (1, [])
  | c :: cs => if c = '-' then (-1, cs) else if c = '+' then (1, cs) else (1, c :: cs)

/-- An exponent that may be missing, and nothing after it. -/
def exponent? : List Char → Option ℤ
  | [] => some 0
  | c :: cs =>
    if c = 'e' ∨ c = 'E' then (digits? (sign cs).2).map fun n => (sign cs).1 * n else none

/-- The digits after a point, and the rest. -/
def fraction : List Char → List Char × List Char
  | [] => ([], [])
  | c :: cs =>
    if c = '.' then (cs.takeWhile isDigit, cs.dropWhile isDigit) else ([], c :: cs)

/-- A numeral without sign. -/
def unsigned? (cs : List Char) : Option ℚ :=
  let whole := cs.takeWhile isDigit
  let (places, tail) := fraction (cs.dropWhile isDigit)
  if whole = [] ∧ places = [] then none
  else (exponent? tail).map fun e => scaled (value (whole ++ places)) (e - places.length)

/-- A numeral. -/
def read (cs : List Char) : Option ℚ := (unsigned? (sign cs).2).map ((sign cs).1 * ·)

/-! ### Digits, points and exponents -/

/-- All characters are digits. -/
def AllDigits (cs : List Char) : Prop := ∀ c ∈ cs, c.isDigit = true

theorem allDigits_toDigits (n : ℕ) : AllDigits (toDigits 10 n) := by
  intro c hc
  exact isDigit_of_mem_toDigits (by decide) (by decide) hc

theorem value_toDigits (n : ℕ) : value (toDigits 10 n) = n :=
  ofDigitChars_toDigits (by decide) (by decide)

/-- Digits end where something else begins. -/
theorem takeWhile_digits {ds tail : List Char} (hds : AllDigits ds)
    (htail : ∀ c ∈ tail.head?, c.isDigit = false) :
    (ds ++ tail).takeWhile isDigit = ds ∧ (ds ++ tail).dropWhile isDigit = tail := by
  have hstop : tail.takeWhile isDigit = [] ∧ tail.dropWhile isDigit = tail := by
    cases tail with
    | nil => exact ⟨rfl, rfl⟩
    | cons c cs =>
      have hc := htail c rfl
      exact ⟨takeWhile_cons_of_neg (by simp [hc]), dropWhile_cons_of_neg (by simp [hc])⟩
  constructor
  · rw [takeWhile_append_of_pos hds, hstop.1, append_nil]
  · rw [dropWhile_append_of_pos hds, hstop.2]

/-- An exponent does not start with a digit or a point. -/
theorem head_exponent {tail : List Char} {e : ℤ} (h : exponent? tail = some e) :
    ∀ c ∈ tail.head?, c.isDigit = false ∧ c ≠ '.' := by
  intro c hc
  cases tail with
  | nil => cases hc
  | cons d cs =>
    have hd : d = c := Option.some.inj hc
    subst hd
    rw [exponent?] at h
    split at h
    · rename_i he
      rcases he with rfl | rfl
      · decide
      · decide
    · cases h

/-- **Digits and an exponent.** -/
theorem unsigned_whole {ds tail : List Char} {e : ℤ} (hds : AllDigits ds) (hne : ds ≠ [])
    (htail : exponent? tail = some e) : unsigned? (ds ++ tail) = some (scaled (value ds) e) := by
  have hhead := head_exponent htail
  obtain ⟨htake, hdrop⟩ := takeWhile_digits hds fun c hc => (hhead c hc).1
  have hfraction : fraction tail = ([], tail) := by
    cases tail with
    | nil => rfl
    | cons c cs => rw [fraction, if_neg (hhead c rfl).2]
  unfold unsigned?
  rw [htake, hdrop, hfraction]
  simp only [hne, false_and, if_false, htail, Option.map_some, append_nil, length_nil]
  rw [cast_zero, sub_zero]

/-- A numeral that starts with a digit has no sign. -/
theorem sign_digit {c : Char} (hc : c.isDigit = true) (cs : List Char) :
    sign (c :: cs) = (1, c :: cs) := by
  have hminus : c ≠ '-' := by
    rintro rfl
    cases hc
  have hplus : c ≠ '+' := by
    rintro rfl
    cases hc
  rw [sign, if_neg hminus, if_neg hplus]

/-- The exponent as printers write it, with its sign. -/
theorem exponent_signed (x : ℤ) :
    exponent? ('e' :: (if x < 0 then '-' else '+') :: toDigits 10 x.natAbs) = some x := by
  have hdigits : digits? (toDigits 10 x.natAbs) = some x.natAbs := by
    have hall : (toDigits 10 x.natAbs).all isDigit = true :=
      all_eq_true.mpr (allDigits_toDigits _)
    rw [digits?, if_pos ⟨toDigits_ne_nil, hall⟩, value_toDigits]
  rw [exponent?, if_pos (.inl rfl)]
  by_cases hx : x < 0
  · rw [if_pos hx, sign, if_pos rfl, hdigits]
    show some (-1 * (x.natAbs : ℤ)) = some x
    congr 1
    omega
  · rw [if_neg hx, sign, if_neg (by decide), if_pos rfl, hdigits]
    show some (1 * (x.natAbs : ℤ)) = some x
    congr 1
    omega

end Decimal
