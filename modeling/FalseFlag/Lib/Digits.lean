/-
  Numbers in digits of fixed width, and texts in the order of their characters.

  `digits base w n` is `n` in `w` digits, with zeros in front.  Texts of one width compare as their
  numbers do (`digits_lt_iff`), and pieces of equal length can be compared one after the other
  (`append_lt_append_iff`): this is why a timestamp or an identifier in a fixed layout can be
  compared as text.
-/
import Mathlib.Algebra.Order.Ring.Nat
import Mathlib.Data.Char
import Mathlib.Data.List.Lex
import Mathlib.Tactic.Tauto

namespace Digits

open List
open Nat (digitChar mod_lt pow_pos)

/-! ## The order of texts -/

/-- Pieces of equal length are compared first. -/
theorem append_lt_append_iff {α : Type} [LinearOrder α] : ∀ {a b x y : List α},
    a.length = b.length → (a ++ x < b ++ y ↔ a < b ∨ a = b ∧ x < y)
  | [], [], x, y, _ => by
    show x < y ↔ _
    constructor
    · exact fun h => .inr ⟨rfl, h⟩
    · rintro (h | h)
      · exact absurd h (not_lt_nil _)
      · exact h.2
  | [], _ :: _, _, _, h => (nomatch h)
  | _ :: _, [], _, _, h => (nomatch h)
  | c :: a, d :: b, x, y, h => by
    rw [cons_append, cons_append, cons_lt_cons_iff, cons_lt_cons_iff,
      append_lt_append_iff (Nat.succ.inj h), List.cons.injEq]
    tauto

/-! ## Digits -/

theorem digitChar_lt_iff : ∀ a < 16, ∀ b < 16, (digitChar a < digitChar b ↔ a < b) := by
  decide

variable (base : ℕ)

/-- A number in `w` digits. -/
def digits : ℕ → ℕ → List Char
  | 0, _ => []
  | w + 1, n => digitChar (n / base ^ w) :: digits w (n % base ^ w)

@[simp] theorem length_digits : ∀ w n : ℕ, (digits base w n).length = w
  | 0, _ => rfl
  | w + 1, n => by rw [digits, length_cons, length_digits w]

theorem lt_iff_div_mod (n m k : ℕ) :
    n < m ↔ n / k < m / k ∨ n / k = m / k ∧ n % k < m % k := by
  have hn := Nat.div_add_mod n k
  have hm := Nat.div_add_mod m k
  constructor
  · intro h
    rcases Nat.lt_or_ge (n / k) (m / k) with hlt | hge
    · exact .inl hlt
    · have heq : n / k = m / k := le_antisymm (Nat.div_le_div_right h.le) hge
      rw [heq] at hn
      exact .inr ⟨heq, by omega⟩
  · rintro (h | ⟨heq, h⟩)
    · exact lt_of_not_ge fun hle => absurd (Nat.div_le_div_right hle) (not_le.mpr h)
    · rw [heq] at hn
      omega

variable {base}

/-- **Digits compare as numbers do.** -/
theorem digits_lt_iff (hbase : 0 < base) (hbase' : base ≤ 16) : ∀ {w n m : ℕ}, n < base ^ w →
    m < base ^ w → (digits base w n < digits base w m ↔ n < m)
  | 0, n, m, hn, hm => by
    rw [pow_zero] at hn hm
    constructor
    · exact fun h => absurd h (not_lt_nil _)
    · omega
  | w + 1, n, m, hn, hm => by
    have hk : 0 < base ^ w := pow_pos hbase
    have hn' : n / base ^ w < 16 :=
      lt_of_lt_of_le (Nat.div_lt_of_lt_mul (by rwa [← pow_succ])) hbase'
    have hm' : m / base ^ w < 16 :=
      lt_of_lt_of_le (Nat.div_lt_of_lt_mul (by rwa [← pow_succ])) hbase'
    have hchar : digitChar (n / base ^ w) = digitChar (m / base ^ w) ↔
        n / base ^ w = m / base ^ w := by
      rw [le_antisymm_iff, le_antisymm_iff, ← not_lt, ← not_lt, digitChar_lt_iff _ hm' _ hn',
        digitChar_lt_iff _ hn' _ hm', not_lt, not_lt]
    rw [digits, digits, cons_lt_cons_iff, digitChar_lt_iff _ hn' _ hm', hchar,
      digits_lt_iff hbase hbase' (mod_lt _ hk) (mod_lt _ hk),
      lt_iff_div_mod n m (base ^ w)]

theorem digits_inj (hbase : 0 < base) (hbase' : base ≤ 16) {w n m : ℕ} (hn : n < base ^ w)
    (hm : m < base ^ w) : digits base w n = digits base w m ↔ n = m := by
  rw [le_antisymm_iff, le_antisymm_iff, ← not_lt, ← not_lt, digits_lt_iff hbase hbase' hm hn,
    digits_lt_iff hbase hbase' hn hm, not_lt, not_lt]

/-- A field of a layout: its digits, and what follows. -/
theorem field_lt_iff (hbase : 0 < base) (hbase' : base ≤ 16) {w n m : ℕ} {x y : List Char}
    (hn : n < base ^ w) (hm : m < base ^ w) :
    digits base w n ++ x < digits base w m ++ y ↔ n < m ∨ n = m ∧ x < y := by
  rw [append_lt_append_iff (by rw [length_digits, length_digits]), digits_lt_iff hbase hbase' hn hm,
    digits_inj hbase hbase' hn hm]

/-- A field and the separator after it. -/
theorem field_sep_lt_iff (hbase : 0 < base) (hbase' : base ≤ 16) {w n m : ℕ} (hn : n < base ^ w)
    (hm : m < base ^ w) {c : Char} {x y : List Char} :
    digits base w n ++ c :: x < digits base w m ++ c :: y ↔ n < m ∨ n = m ∧ x < y := by
  rw [field_lt_iff hbase hbase' hn hm, cons_lt_cons_iff]
  simp only [lt_irrefl, false_or, true_and]

/-! ## Reading -/

/-- The next character is `c`. -/
def expect (c : Char) : List Char → Option (List Char)
  | [] => none
  | d :: cs => if d = c then some cs else none

@[simp] theorem expect_self (c : Char) (cs : List Char) : expect c (c :: cs) = some cs := by
  rw [expect, if_pos rfl]

/-- Read `w` digits. -/
def read (base : ℕ) (value : Char → Option ℕ) : ℕ → ℕ → List Char → Option (ℕ × List Char)
  | 0, acc, cs => some (acc, cs)
  | _ + 1, _, [] => none
  | w + 1, acc, c :: cs =>
    match value c with
    | none => none
    | some d => read base value w (acc * base + d) cs

/-- **What was written is read.** -/
theorem read_digits {value : Char → Option ℕ} (hbase : 0 < base)
    (hvalue : ∀ d < base, value (digitChar d) = some d) (r : List Char) :
    ∀ {w n : ℕ} (acc : ℕ), n < base ^ w →
      read base value w acc (digits base w n ++ r) = some (acc * base ^ w + n, r)
  | 0, n, acc, hn => by
    rw [pow_zero] at hn
    show some (acc, r) = _
    rw [pow_zero, mul_one, Nat.lt_one_iff.mp hn, Nat.add_zero]
  | w + 1, n, acc, hn => by
    have hk : 0 < base ^ w := pow_pos hbase
    have hd : n / base ^ w < base := Nat.div_lt_of_lt_mul (by rwa [← pow_succ])
    rw [digits, cons_append, read, hvalue _ hd]
    show read base value w (acc * base + n / base ^ w) (digits base w (n % base ^ w) ++ r) = _
    rw [read_digits hbase hvalue r _ (mod_lt _ hk)]
    have hsum : (acc * base + n / base ^ w) * base ^ w + n % base ^ w = acc * base ^ (w + 1) + n := by
      have hn := Nat.div_add_mod n (base ^ w)
      rw [add_mul, mul_assoc, ← pow_succ', Nat.mul_comm (n / base ^ w), add_assoc, hn]
    rw [hsum]

/-- What was read has so many digits. -/
theorem lt_of_read {value : Char → Option ℕ} (hvalue : ∀ c d, value c = some d → d < base) :
    ∀ {w acc n : ℕ} {cs r : List Char}, read base value w acc cs = some (n, r) →
      n < (acc + 1) * base ^ w
  | 0, acc, n, cs, r, h => by
    injection h with h
    have hn : acc = n := congrArg Prod.fst h
    rw [pow_zero]
    omega
  | _ + 1, _, _, [], _, h => (nomatch h)
  | w + 1, acc, n, c :: cs, r, h => by
    rw [read] at h
    rcases hc : value c with _ | d
    · rw [hc] at h
      nomatch h
    · rw [hc] at h
      have hd := hvalue c d hc
      have hn := lt_of_read hvalue h
      have hle : acc * base + d + 1 ≤ (acc + 1) * base := by
        rw [add_mul, one_mul]
        omega
      calc n < (acc * base + d + 1) * base ^ w := hn
        _ ≤ (acc + 1) * base * base ^ w := Nat.mul_le_mul_right _ hle
        _ = (acc + 1) * base ^ (w + 1) := by rw [mul_assoc, ← pow_succ']

/-! ## Decimal and hexadecimal digits -/

/-- A decimal digit. -/
def decimal? (c : Char) : Option ℕ := if c.isDigit then some (c.toNat - 48) else none

/-- A hexadecimal digit, of either case. -/
def hex? (c : Char) : Option ℕ :=
  if c.isDigit then some (c.toNat - 48)
  else if 'a' ≤ c ∧ c ≤ 'f' then some (c.toNat - 87)
  else if 'A' ≤ c ∧ c ≤ 'F' then some (c.toNat - 55)
  else none

theorem decimal?_digitChar : ∀ d < 10, decimal? (digitChar d) = some d := by decide

theorem hex?_digitChar : ∀ d < 16, hex? (digitChar d) = some d := by decide

theorem isDigit_digitChar : ∀ d < 10, (digitChar d).isDigit = true := by decide

/-- Decimal digits are digits. -/
theorem isDigit_of_mem_digits : ∀ {w n : ℕ}, n < 10 ^ w → ∀ c ∈ digits 10 w n, c.isDigit = true
  | 0, _, _, _, hc => absurd hc not_mem_nil
  | w + 1, n, hn, c, hc => by
    have hd : n / 10 ^ w < 10 := Nat.div_lt_of_lt_mul (by rwa [← pow_succ])
    rcases mem_cons.mp hc with rfl | hc
    · exact isDigit_digitChar _ hd
    · exact isDigit_of_mem_digits (mod_lt _ (pow_pos (by omega))) c hc

theorem digits_zero : ∀ w : ℕ, digits 10 w 0 = List.replicate w '0'
  | 0 => rfl
  | w + 1 => by
    rw [digits, Nat.zero_div, Nat.zero_mod, digits_zero w]
    rfl

theorem lt_of_decimal? (c : Char) (d : ℕ) (h : decimal? c = some d) : d < 10 := by
  rw [decimal?] at h
  split at h
  · rename_i hc
    injection h with h
    have hle : c.toNat ≤ 57 := by
      rw [Char.isDigit, Bool.and_eq_true, decide_eq_true_iff, decide_eq_true_iff] at hc
      exact UInt32.le_iff_toNat_le.mp hc.2
    omega
  · nomatch h

end Digits
