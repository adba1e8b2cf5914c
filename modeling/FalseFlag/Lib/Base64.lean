/-
  Bytes in base 64, with the alphabet for URLs and without padding.

  Three bytes are four characters; one or two bytes at the end are two or three.  The reader skips
  line breaks and does not look at the bits that are left over.  `decode_encode`: what is written is
  read back.
-/
import Mathlib.Data.List.Basic
import Mathlib.Data.Nat.Notation

namespace Base64

open List
open UInt8 (ofNat)

/-! ## Six bits at a time -/

def toSextets : List UInt8 → List ℕ
  | a :: b :: c :: bs =>
    a.toNat / 4 :: (a.toNat % 4 * 16 + b.toNat / 16) :: (b.toNat % 16 * 4 + c.toNat / 64) ::
      c.toNat % 64 :: toSextets bs
  | [a, b] => [a.toNat / 4, a.toNat % 4 * 16 + b.toNat / 16, b.toNat % 16 * 4]
  | [a] => [a.toNat / 4, a.toNat % 4 * 16]
  | [] => []

def ofSextets : List ℕ → Option (List UInt8)
  | p :: q :: r :: s :: ns => (ofSextets ns).map fun bs =>
      ofNat (p * 4 + q / 16) :: ofNat (q % 16 * 16 + r / 4) ::
        ofNat (r % 4 * 64 + s) :: bs
  | [p, q, r] => some [ofNat (p * 4 + q / 16), ofNat (q % 16 * 16 + r / 4)]
  | [p, q] => some [ofNat (p * 4 + q / 16)]
  | [_] => none
  | [] => some []

theorem ofNat_eq {n : ℕ} {a : UInt8} (h : n = a.toNat) : ofNat n = a := by
  rw [h, UInt8.ofNat_toNat]

/-- The sextets give the bytes back. -/
theorem ofSextets_toSextets : ∀ bs : List UInt8, ofSextets (toSextets bs) = some bs
  | a :: b :: c :: bs => by
    have ha := a.toNat_lt
    have hb := b.toNat_lt
    have hc := c.toNat_lt
    rw [toSextets, ofSextets, ofSextets_toSextets bs, @ofNat_eq _ a (by omega),
      @ofNat_eq _ b (by omega), @ofNat_eq _ c (by omega)]
    rfl
  | [a, b] => by
    have ha := a.toNat_lt
    have hb := b.toNat_lt
    rw [toSextets, ofSextets, @ofNat_eq _ a (by omega), @ofNat_eq _ b (by omega)]
  | [a] => by
    have ha := a.toNat_lt
    rw [toSextets, ofSextets, @ofNat_eq _ a (by omega)]
  | [] => rfl

/-- They have six bits. -/
theorem toSextets_lt : ∀ bs : List UInt8, ∀ n ∈ toSextets bs, n < 64
  | a :: b :: c :: bs, n, hn => by
    have ha := a.toNat_lt
    have hb := b.toNat_lt
    have hc := c.toNat_lt
    simp only [toSextets, mem_cons] at hn
    rcases hn with rfl | rfl | rfl | rfl | hn
    · omega
    · omega
    · omega
    · omega
    · exact toSextets_lt bs n hn
  | [a, b], n, hn => by
    have ha := a.toNat_lt
    have hb := b.toNat_lt
    simp only [toSextets, mem_cons, not_mem_nil, or_false] at hn
    omega
  | [a], n, hn => by
    have ha := a.toNat_lt
    simp only [toSextets, mem_cons, not_mem_nil, or_false] at hn
    omega
  | [], _, hn => absurd hn not_mem_nil

/-! ## The alphabet -/

/-- `A` to `Z`, `a` to `z`, `0` to `9`, `-` and `_`. -/
def char (n : ℕ) : Char :=
  if n < 26 then Char.ofNat (n + 65)
  else if n < 52 then Char.ofNat (n + 71)
  else if n < 62 then Char.ofNat (n - 4)
  else if n = 62 then '-'
  else '_'

def value? (c : Char) : Option ℕ :=
  if c.isUpper then some (c.toNat - 65)
  else if c.isLower then some (c.toNat - 71)
  else if c.isDigit then some (c.toNat + 4)
  else if c = '-' then some 62
  else if c = '_' then some 63
  else none

/-- A letter gives its sextet back, -/
theorem value?_char : ∀ n < 64, value? (char n) = some n := by decide

def isBreak (c : Char) : Bool := c = '\n' || c = '\r'

theorem isBreak_char : ∀ n < 64, isBreak (char n) = false := by decide

/-- The values of a text, if all its characters are in the alphabet. -/
def values? : List Char → Option (List ℕ)
  | [] => some []
  | c :: cs =>
    match value? c, values? cs with
    | some n, some ns => some (n :: ns)
    | _, _ => none

/-- and a text all of them. -/
theorem values?_map_char : ∀ {ns : List ℕ}, (∀ n ∈ ns, n < 64) →
    values? (ns.map char) = some ns
  | [], _ => rfl
  | n :: ns, h => by
    rw [map_cons, values?, value?_char n (h n mem_cons_self),
      values?_map_char fun m hm => h m (mem_cons_of_mem _ hm)]

/-! ## Texts -/

def encode (bs : List UInt8) : List Char := (toSextets bs).map char

def decode (cs : List Char) : Option (List UInt8) :=
  (values? (cs.filter fun c => !isBreak c)).bind ofSextets

/-- **What is written is read back.** -/
theorem decode_encode (bs : List UInt8) : decode (encode bs) = some bs := by
  have hbreaks : (encode bs).filter (fun c => !isBreak c) = encode bs := by
    rw [filter_eq_self]
    intro c hc
    obtain ⟨n, hn, rfl⟩ := mem_map.mp hc
    rw [isBreak_char n (toSextets_lt bs n hn)]
    rfl
  rw [decode, hbreaks, encode, values?_map_char (toSextets_lt bs)]
  exact ofSextets_toSextets bs

end Base64
