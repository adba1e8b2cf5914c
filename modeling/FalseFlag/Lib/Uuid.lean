/-
  Identifiers of 128 bits, and their text.

  The text has five groups of hexadecimal digits, in lower case.  Its layout is fixed, so texts
  compare as the identifiers do (`text_lt_iff`), and `parse` reads it back (`parse_text`).  `parse`
  also reads three other forms: without hyphens, in braces, and as a URN.
-/
import FalseFlag.Lib.Digits
import Mathlib.Order.Fin.Basic

abbrev Uuid := Fin (2 ^ 128)

namespace Uuid

instance : NeZero (2 ^ 128) := ⟨by decide⟩

open Digits

/-- `xxxxxxxx-xxxx-xxxx-xxxx-xxxxxxxxxxxx`. -/
def layout (a b c d e : ℕ) : List Char :=
  digits 16 8 a ++ '-' :: (digits 16 4 b ++ '-' :: (digits 16 4 c ++ '-' :: (digits 16 4 d ++ '-' ::
    (digits 16 12 e ++ []))))

def text (u : Uuid) : List Char :=
  layout (u.val / 2 ^ 96) (u.val % 2 ^ 96 / 2 ^ 80) (u.val % 2 ^ 80 / 2 ^ 64)
    (u.val % 2 ^ 64 / 2 ^ 48) (u.val % 2 ^ 48)

/-- A group of hexadecimal digits. -/
def group (w acc : ℕ) (cs : List Char) : Option (ℕ × List Char) := read 16 hex? w acc cs

/-- The identifier of a number, at the end of a text. -/
def ofNat? : ℕ × List Char → Option Uuid
  | (n, []) => if h : n < 2 ^ 128 then some ⟨n, h⟩ else none
  | _ => none

/-- The form with hyphens. -/
def canonical (cs : List Char) : Option Uuid := do
  let (n, cs) ← group 8 0 cs
  let cs ← expect '-' cs
  let (n, cs) ← group 4 n cs
  let cs ← expect '-' cs
  let (n, cs) ← group 4 n cs
  let cs ← expect '-' cs
  let (n, cs) ← group 4 n cs
  let cs ← expect '-' cs
  let (n, cs) ← group 12 n cs
  ofNat? (n, cs)

/-- The form is told by the length; of a text in braces only the middle is looked at. -/
def parse (cs : List Char) : Option Uuid :=
  if cs.length = 36 then canonical cs
  else if cs.length = 45 then
    if (cs.take 9).map Char.toLower = "urn:uuid:".toList then canonical (cs.drop 9) else none
  else if cs.length = 38 then canonical ((cs.drop 1).take 36)
  else if cs.length = 32 then (group 32 0 cs).bind ofNat?
  else none

/-- The groups fit their widths. -/
theorem groupsBelow (u : Uuid) : u.val / 2 ^ 96 < 16 ^ 8 ∧ u.val % 2 ^ 96 / 2 ^ 80 < 16 ^ 4 ∧
    u.val % 2 ^ 80 / 2 ^ 64 < 16 ^ 4 ∧ u.val % 2 ^ 64 / 2 ^ 48 < 16 ^ 4 ∧
    u.val % 2 ^ 48 < 16 ^ 12 := by
  have hu := u.isLt
  omega

/-- Numbers compare group after group. -/
theorem lt_iff_groups (n m : ℕ) : n < m ↔ n / 2 ^ 96 < m / 2 ^ 96 ∨ n / 2 ^ 96 = m / 2 ^ 96 ∧
    (n % 2 ^ 96 / 2 ^ 80 < m % 2 ^ 96 / 2 ^ 80 ∨ n % 2 ^ 96 / 2 ^ 80 = m % 2 ^ 96 / 2 ^ 80 ∧
    (n % 2 ^ 80 / 2 ^ 64 < m % 2 ^ 80 / 2 ^ 64 ∨ n % 2 ^ 80 / 2 ^ 64 = m % 2 ^ 80 / 2 ^ 64 ∧
    (n % 2 ^ 64 / 2 ^ 48 < m % 2 ^ 64 / 2 ^ 48 ∨ n % 2 ^ 64 / 2 ^ 48 = m % 2 ^ 64 / 2 ^ 48 ∧
      n % 2 ^ 48 < m % 2 ^ 48))) := by
  have hmod : ∀ (x : ℕ) {i j : ℕ}, i ≤ j → x % 2 ^ j % 2 ^ i = x % 2 ^ i := fun x i j h =>
    Nat.mod_mod_of_dvd x (Nat.pow_dvd_pow 2 h)
  rw [lt_iff_div_mod n m (2 ^ 96), lt_iff_div_mod (n % 2 ^ 96) (m % 2 ^ 96) (2 ^ 80),
    hmod n (show 80 ≤ 96 by omega), hmod m (show 80 ≤ 96 by omega),
    lt_iff_div_mod (n % 2 ^ 80) (m % 2 ^ 80) (2 ^ 64), hmod n (show 64 ≤ 80 by omega),
    hmod m (show 64 ≤ 80 by omega), lt_iff_div_mod (n % 2 ^ 64) (m % 2 ^ 64) (2 ^ 48),
    hmod n (show 48 ≤ 64 by omega), hmod m (show 48 ≤ 64 by omega)]

/-- **Texts compare as identifiers do.** -/
theorem text_lt_iff {u v : Uuid} : u.text < v.text ↔ u < v := by
  obtain ⟨h1, h2, h3, h4, h₅⟩ := groupsBelow u
  obtain ⟨h₁', h₂', h₃', h₄', h₅'⟩ := groupsBelow v
  rw [text, text, layout, layout, field_sep_lt_iff (by decide) (by decide) h1 h₁',
    field_sep_lt_iff (by decide) (by decide) h2 h₂', field_sep_lt_iff (by decide) (by decide) h3 h₃',
    field_sep_lt_iff (by decide) (by decide) h4 h₄', field_lt_iff (by decide) (by decide) h₅ h₅',
    Fin.lt_def, lt_iff_groups u.val v.val]
  simp only [lt_irrefl, and_false, or_false]

theorem text_injective : Function.Injective text := by
  intro u v h
  rcases lt_trichotomy u v with huv | rfl | huv
  · rw [← text_lt_iff, h] at huv
    exact absurd huv (lt_irrefl _)
  · rfl
  · rw [← text_lt_iff, h] at huv
    exact absurd huv (lt_irrefl _)

theorem length_text (u : Uuid) : u.text.length = 36 := by
  simp only [text, layout, List.length_append, List.length_cons, length_digits, List.length_nil]

theorem group_digits {w n : ℕ} (h : n < 16 ^ w) (acc : ℕ) (r : List Char) :
    group w acc (digits 16 w n ++ r) = some (acc * 16 ^ w + n, r) :=
  read_digits (by decide) hex?_digitChar r acc h

theorem canonical_layout {a b c d e n : ℕ} (ha : a < 16 ^ 8) (hb : b < 16 ^ 4) (hc : c < 16 ^ 4)
    (hd : d < 16 ^ 4) (he : e < 16 ^ 12)
    (hn : (((a * 65536 + b) * 65536 + c) * 65536 + d) * 281474976710656 + e = n) :
    canonical (layout a b c d e) = ofNat? (n, []) := by
  simp only [canonical, layout, group_digits ha, group_digits hb, group_digits hc, group_digits hd,
    group_digits he, expect_self, Option.bind_eq_bind, Option.bind_some, Nat.zero_mul, Nat.zero_add,
    Nat.reducePow, hn]

theorem ofNat?_val (u : Uuid) : ofNat? (u.val, []) = some u := by
  rw [ofNat?, dif_pos u.isLt]

/-- Groups make up the number again. -/
theorem groups_sum (n : ℕ) : (((n / 2 ^ 96 * 65536 + n % 2 ^ 96 / 2 ^ 80) * 65536 +
    n % 2 ^ 80 / 2 ^ 64) * 65536 + n % 2 ^ 64 / 2 ^ 48) * 281474976710656 + n % 2 ^ 48 = n := by
  omega

/-- **An identifier is read back from its text.** -/
theorem parse_text (u : Uuid) : parse u.text = some u := by
  obtain ⟨h1, h2, h3, h4, h₅⟩ := groupsBelow u
  rw [parse, if_pos u.length_text, text,
    canonical_layout h1 h2 h3 h4 h₅ (groups_sum u.val)]
  exact ofNat?_val u

end Uuid
