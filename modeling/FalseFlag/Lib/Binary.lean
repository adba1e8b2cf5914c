/-
  Binary floating-point formats, over the rationals.

  A `Format` has a precision and a least exponent.  A number is representable when it is an integer
  of at most `prec` bits times a power of two that is not below `2 ^ minExp`.  `Format.round` rounds
  to nearest, ties to even, on a grid whose spacing depends on the binade of the number.  Overflow
  is NOT part of rounding: a reader compares `round q` with its own limit.

  * `shortest` — the decimal with the fewest digits that rounds back, as printers use;
  * `round_shortest` — printing and reading back gives the number that was printed.
-/
import Mathlib.Data.Int.Log
import Mathlib.Data.Rat.Floor
import Mathlib.Tactic.Linarith
import Mathlib.Tactic.Positivity

namespace Binary

open Int

/-! ## Rounding to an integer -/

/-- The nearest integer, the even one of two. -/
def roundEven (x : ℚ) : ℤ :=
  if x - ⌊x⌋ < 1 / 2 then ⌊x⌋
  else if 1 / 2 < x - ⌊x⌋ then ⌊x⌋ + 1
  else if ⌊x⌋ % 2 = 0 then ⌊x⌋
  else ⌊x⌋ + 1

@[simp] theorem roundEven_intCast (n : ℤ) : roundEven n = n := by
  simp [roundEven]

theorem roundEven_eq_floor_or (x : ℚ) : roundEven x = ⌊x⌋ ∨ (⌊x⌋ < x ∧ roundEven x = ⌊x⌋ + 1) := by
  unfold roundEven
  have hfract : x - ⌊x⌋ < 1 / 2 ∨ (⌊x⌋ : ℚ) < x := by
    by_cases h : x - ⌊x⌋ < 1 / 2
    · exact .inl h
    · exact .inr (by linarith)
  split
  · exact .inl rfl
  · rename_i h
    have hlt := hfract.resolve_left h
    split
    · exact .inr ⟨hlt, rfl⟩
    · split
      · exact .inl rfl
      · exact .inr ⟨hlt, rfl⟩

theorem floor_le_roundEven (x : ℚ) : ⌊x⌋ ≤ roundEven x := by
  rcases roundEven_eq_floor_or x with h | ⟨-, h⟩
  · exact h.ge
  · omega

theorem roundEven_nonpos {x : ℚ} (h : x ≤ 0) : roundEven x ≤ 0 := by
  rcases roundEven_eq_floor_or x with h' | ⟨hlt, h'⟩
  · rw [h']
    exact floor_nonpos h
  · have hneg : ⌊x⌋ < 0 := by exact_mod_cast hlt.trans_le h
    omega

theorem roundEven_neg (x : ℚ) : roundEven (-x) = -roundEven x := by
  by_cases hx : (⌊x⌋ : ℚ) = x
  · rw [← hx, ← cast_neg, roundEven_intCast, roundEven_intCast]
  · have hlt : (⌊x⌋ : ℚ) < x := lt_of_le_of_ne (floor_le x) hx
    have hfloor : ⌊-x⌋ = -⌊x⌋ - 1 := by
      have hup := lt_floor_add_one x
      rw [floor_eq_iff]
      push_cast
      constructor <;> linarith
    -- the distance to the floor becomes the distance to the ceiling
    have hdist : -x - ((-⌊x⌋ - 1 : ℤ) : ℚ) = 1 - (x - ⌊x⌋) := by
      push_cast
      ring
    unfold roundEven
    rw [hfloor, hdist]
    rcases lt_trichotomy (x - ⌊x⌋) (1 / 2) with h | h | h
    · rw [if_neg (by linarith), if_pos (by linarith), if_pos h]
      omega
    · rw [h]
      norm_num
      split <;> split <;> omega
    · rw [if_pos (by linarith), if_neg (by linarith), if_pos h]
      omega

/-- Rounding does not cross an integer bound. -/
theorem abs_roundEven_le {x : ℚ} {n : ℕ} (h : |x| < n) : |roundEven x| ≤ n := by
  obtain ⟨hlo, hhi⟩ := abs_lt.mp h
  have hfloor : -(n : ℤ) ≤ ⌊x⌋ := le_floor.mpr (by push_cast; exact hlo.le)
  have hfloor' : ⌊x⌋ < (n : ℤ) := floor_lt.mpr (by push_cast; exact hhi)
  rw [abs_le]
  rcases roundEven_eq_floor_or x with h | ⟨-, h⟩
  · rw [h]
    exact ⟨hfloor, hfloor'.le⟩
  · rw [h]
    exact ⟨by omega, by omega⟩

/-! ## Formats -/

/-- A binary format, without bound on the exponent above. -/
structure Format where
  prec : ℕ
  minExp : ℤ
  prec_pos : 0 < prec

namespace Format

variable (F : Format)

/-- The numbers of the format. -/
def Representable (q : ℚ) : Prop :=
  ∃ m e : ℤ, q = m * 2 ^ e ∧ |m| < 2 ^ F.prec ∧ F.minExp ≤ e

/-- The exponent of the grid that `q` is rounded on. -/
def gridExp (q : ℚ) : ℤ := max (log 2 |q| + 1 - F.prec) F.minExp

/-- Round to nearest, ties to even. -/
def round (q : ℚ) : ℚ := roundEven (q / 2 ^ F.gridExp q) * 2 ^ F.gridExp q

theorem abs_div_grid_lt (q : ℚ) : |q / 2 ^ F.gridExp q| < (2 ^ F.prec : ℕ) := by
  have hpos : (0 : ℚ) < 2 ^ F.gridExp q := zpow_pos two_pos _
  rw [abs_div, abs_of_pos hpos, div_lt_iff₀ hpos]
  calc |q| < 2 ^ (log 2 |q| + 1) := by
        exact_mod_cast lt_zpow_succ_log_self Nat.one_lt_two |q|
    _ ≤ 2 ^ ((F.prec : ℤ) + F.gridExp q) := by
        refine zpow_le_zpow_right₀ one_le_two ?_
        have := le_max_left (log 2 |q| + 1 - F.prec) F.minExp
        unfold gridExp
        omega
    _ = (2 ^ F.prec : ℕ) * 2 ^ F.gridExp q := by
        rw [zpow_add₀ two_ne_zero, zpow_natCast]
        push_cast
        rfl

/-- What rounding gives is a number of the format. -/
theorem round_representable (q : ℚ) : F.Representable (F.round q) := by
  have hle : |roundEven (q / 2 ^ F.gridExp q)| ≤ (2 ^ F.prec : ℕ) :=
    abs_roundEven_le (F.abs_div_grid_lt q)
  have hmin : F.minExp ≤ F.gridExp q := le_max_right _ _
  unfold round
  generalize roundEven (q / 2 ^ F.gridExp q) = m at hle ⊢
  push_cast at hle
  rcases lt_or_eq_of_le hle with hlt | heq
  · exact ⟨m, F.gridExp q, rfl, hlt, hmin⟩
  · -- rounded up to the next binade: a power of two
    have hone : (1 : ℤ) < 2 ^ F.prec := one_lt_pow₀ one_lt_two F.prec_pos.ne'
    have hpow : (2 : ℚ) ^ F.prec * 2 ^ F.gridExp q = 2 ^ ((F.prec : ℤ) + F.gridExp q) := by
      rw [zpow_add₀ two_ne_zero, zpow_natCast]
    rcases (abs_eq (by positivity)).mp heq with rfl | rfl
    · exact ⟨1, F.prec + F.gridExp q, by push_cast; rw [one_mul, hpow], by simpa using hone, by omega⟩
    · exact ⟨-1, F.prec + F.gridExp q, by push_cast; rw [neg_mul, neg_mul, one_mul, hpow],
        by simpa using hone, by omega⟩

/-- Rounding does not cross a power of two. -/
theorem abs_round_le {q : ℚ} {b : ℤ} (hq : |q| < 2 ^ b) (hb : F.prec + F.minExp ≤ b) :
    |F.round q| ≤ 2 ^ b := by
  by_cases hq0 : q = 0
  · subst hq0
    simp only [round, zero_div]
    rw [show roundEven 0 = 0 from roundEven_intCast 0, cast_zero, zero_mul, abs_zero]
    positivity
  · have hlog : log 2 |q| < b :=
      (lt_zpow_iff_log_lt Nat.one_lt_two (abs_pos.mpr hq0)).mp (by exact_mod_cast hq)
    have hgrid : (F.prec : ℤ) + F.gridExp q ≤ b := by
      unfold gridExp
      omega
    have hpos : (0 : ℚ) < 2 ^ F.gridExp q := zpow_pos two_pos _
    have hround : |(roundEven (q / 2 ^ F.gridExp q) : ℚ)| ≤ 2 ^ F.prec := by
      exact_mod_cast abs_roundEven_le (F.abs_div_grid_lt q)
    calc |F.round q| = |(roundEven (q / 2 ^ F.gridExp q) : ℚ)| * 2 ^ F.gridExp q := by
          rw [round, abs_mul, abs_of_pos hpos]
      _ ≤ 2 ^ F.prec * 2 ^ F.gridExp q := mul_le_mul_of_nonneg_right hround hpos.le
      _ = 2 ^ ((F.prec : ℤ) + F.gridExp q) := by rw [zpow_add₀ two_ne_zero, zpow_natCast]
      _ ≤ 2 ^ b := zpow_le_zpow_right₀ one_le_two hgrid

theorem round_nonpos {q : ℚ} (h : q ≤ 0) : F.round q ≤ 0 := by
  have hpos : (0 : ℚ) < 2 ^ F.gridExp q := zpow_pos two_pos _
  have hround : roundEven (q / 2 ^ F.gridExp q) ≤ 0 :=
    roundEven_nonpos (div_nonpos_of_nonpos_of_nonneg h hpos.le)
  exact mul_nonpos_of_nonpos_of_nonneg (by exact_mod_cast hround) hpos.le

/-- Rounding does not cross a small integer from above.  Below `2 ^ prec` the integer is on the
    grid; further up the grid is coarser, but everything on it is large. -/
theorem le_round {m : ℤ} {q : ℚ} (hmin : F.minExp ≤ 0) (hm0 : 0 < m) (hm : m ≤ 2 ^ (F.prec - 1))
    (h : (m : ℚ) ≤ q) : (m : ℚ) ≤ F.round q := by
  have hpos : (0 : ℚ) < 2 ^ F.gridExp q := zpow_pos two_pos _
  have hq : 0 < q := lt_of_lt_of_le (by exact_mod_cast hm0) h
  have hround : ∀ n : ℤ, (n : ℚ) ≤ q / 2 ^ F.gridExp q → (n : ℚ) * 2 ^ F.gridExp q ≤ F.round q := by
    intro n hn
    have hle : n ≤ roundEven (q / 2 ^ F.gridExp q) :=
      (le_floor.mpr hn).trans (floor_le_roundEven _)
    exact mul_le_mul_of_nonneg_right (by exact_mod_cast hle) hpos.le
  rcases le_or_gt (F.gridExp q) 0 with hg | hg
  · -- `m` is on the grid
    have hcancel : (2 : ℚ) ^ (-F.gridExp q).toNat * 2 ^ F.gridExp q = 1 := by
      rw [← zpow_natCast, toNat_of_nonneg (by omega), ← zpow_add₀ two_ne_zero, neg_add_cancel,
        zpow_zero]
    have hgrid := hround (m * 2 ^ (-F.gridExp q).toNat) (by
      rw [le_div_iff₀ hpos]
      push_cast
      rwa [mul_assoc, hcancel, mul_one])
    push_cast at hgrid
    rwa [mul_assoc, hcancel, mul_one] at hgrid
  · -- everything on the grid from here on is large
    have hlog : F.gridExp q + (F.prec - 1) ≤ log 2 |q| := by
      unfold gridExp at hg ⊢
      omega
    have hlarge : (2 : ℚ) ^ (F.prec - 1) ≤ q / 2 ^ F.gridExp q := by
      rw [le_div_iff₀ hpos, ← zpow_natCast, ← zpow_add₀ two_ne_zero]
      calc (2 : ℚ) ^ (((F.prec - 1 : ℕ) : ℤ) + F.gridExp q) ≤ 2 ^ log 2 |q| := by
            refine zpow_le_zpow_right₀ one_le_two ?_
            have := F.prec_pos
            omega
        _ ≤ |q| := by exact_mod_cast zpow_log_le_self Nat.one_lt_two (abs_pos.mpr hq.ne')
        _ = q := abs_of_pos hq
    have hmq : (m : ℚ) ≤ q / 2 ^ F.gridExp q := le_trans (by exact_mod_cast hm) hlarge
    have hone : (1 : ℚ) ≤ 2 ^ F.gridExp q := one_le_zpow₀ one_le_two hg.le
    calc (m : ℚ) = m * 1 := (mul_one _).symm
      _ ≤ m * 2 ^ F.gridExp q := mul_le_mul_of_nonneg_left hone (by exact_mod_cast hm0.le)
      _ ≤ F.round q := hround m hmq

theorem round_neg (q : ℚ) : F.round (-q) = -F.round q := by
  have hgrid : F.gridExp (-q) = F.gridExp q := by rw [gridExp, gridExp, abs_neg]
  rw [round, round, hgrid, neg_div, roundEven_neg, cast_neg, neg_mul]

variable {F}

/-- The grid of a number of the format is at least as fine as the number. -/
theorem gridExp_le {m e : ℤ} (hm0 : m ≠ 0) (hm : |m| < 2 ^ F.prec) (he : F.minExp ≤ e) :
    F.gridExp (m * 2 ^ e) ≤ e := by
  have hpos : (0 : ℚ) < 2 ^ e := zpow_pos two_pos _
  have habs : |(m : ℚ) * 2 ^ e| = |(m : ℚ)| * 2 ^ e := by rw [abs_mul, abs_of_pos hpos]
  have hq : 0 < |(m : ℚ) * 2 ^ e| :=
    abs_pos.mpr (mul_ne_zero (by exact_mod_cast hm0) hpos.ne')
  have hlt : |(m : ℚ) * 2 ^ e| < ((2 : ℕ) : ℚ) ^ ((F.prec : ℤ) + e) := by
    rw [habs, Nat.cast_two, zpow_add₀ two_ne_zero, zpow_natCast]
    exact mul_lt_mul_of_pos_right (by exact_mod_cast hm) hpos
  have hlog := (lt_zpow_iff_log_lt Nat.one_lt_two hq).mp hlt
  unfold gridExp
  omega

/-- **A number of the format is rounded to itself.** -/
theorem Representable.round_eq {q : ℚ} (h : F.Representable q) : F.round q = q := by
  obtain ⟨m, e, rfl, hm, he⟩ := h
  by_cases hm0 : m = 0
  · subst hm0
    simp [round, roundEven]
  · have hle := gridExp_le hm0 hm he
    -- on its own grid the number is an integer
    have hdiv : (m : ℚ) * 2 ^ e / 2 ^ F.gridExp (m * 2 ^ e) =
        ((m * 2 ^ (e - F.gridExp (m * 2 ^ e)).toNat : ℤ) : ℚ) := by
      push_cast
      rw [mul_div_assoc, ← zpow_sub₀ two_ne_zero, ← zpow_natCast, toNat_of_nonneg (by omega)]
    rw [round, hdiv, roundEven_intCast, ← hdiv, div_mul_cancel₀ _ (zpow_ne_zero _ two_ne_zero)]

@[simp] theorem round_round (q : ℚ) : F.round (F.round q) = F.round q :=
  (F.round_representable q).round_eq

/-! ## Printing -/

/-- The decimals with `n` digits next to `q`, the nearest first. -/
def decimals (q : ℚ) (n : ℕ) : List ℚ :=
  let k := log 10 |q| + 1 - n
  [roundEven (q / 10 ^ k), ⌊q / 10 ^ k⌋, ⌊q / 10 ^ k⌋ + 1].map fun m : ℤ => m * 10 ^ k

/-- The decimal with the fewest digits that reads back as `q`, up to `digits` of them. -/
def shortest (F : Format) (digits : ℕ) (q : ℚ) : ℚ :=
  (((List.range digits).flatMap fun n => decimals q (n + 1)).find? (F.round · = q)).getD q

/-- **What is printed reads back.** -/
theorem round_shortest (digits : ℕ) (q : ℚ) :
    F.round (F.shortest digits (F.round q)) = F.round q := by
  unfold shortest
  generalize ((List.range digits).flatMap fun n => decimals (F.round q) (n + 1)) = ds
  rcases hfind : ds.find? (F.round · = F.round q) with _ | c
  · exact round_round q
  · simpa using List.find?_some hfind

end Format

/-- IEEE 754 binary64: 53 bits, the least positive number is `2 ^ -1074`. -/
def binary64 : Format := ⟨53, -1074, by decide⟩

example : binary64.round (2 ^ 53 + 1) = 2 ^ 53 := by decide +kernel

example : binary64.shortest 17 (2 ^ 63) = 9223372036854776000 := by decide +kernel

example : binary64.shortest 17 (binary64.round (1 / 10)) = 1 / 10 := by decide +kernel

end Binary
