/-
  Instants as text.

  Two layouts: with the fraction of a second cut after its last digit that is not zero
  (`formatNano`), and with exactly three digits (`formatMilli`).  The second loses what is below a
  millisecond, and is made to be COMPARED as text.
  * `parse_formatNano` — the first can be read back, if the year has four digits;
  * `formatMilli_lt_iff` — the second compares as milliseconds do, if the years have four digits.

  Readers are as lenient as the time package of Go: an hour may have one digit, a comma may stand for
  the point, a fraction may have any number of digits, and an offset from UTC may be 24 hours and 60
  minutes.
-/
import FalseFlag.Lib.Calendar
import FalseFlag.Lib.Digits
import Mathlib.Data.List.DropRight

namespace TimeText

open List Calendar Digits DateTime
open Option (bind_eq_bind bind_eq_some_iff some_or)

/-! ## Writing -/

/-- A number in at least four digits. -/
def padded (n : ℕ) : List Char := if n < 10000 then digits 10 4 n else Nat.toDigits 10 n

def yearText (y : ℤ) : List Char := if y < 0 then '-' :: padded (-y).toNat else padded y.toNat

/-- A date-time up to its seconds, and what follows. -/
def toSeconds (c : DateTime) (rest : List Char) : List Char :=
  yearText c.year ++ '-' :: (digits 10 2 c.month ++ '-' :: (digits 10 2 c.day ++ 'T' ::
    (digits 10 2 c.hour ++ ':' :: (digits 10 2 c.minute ++ ':' :: (digits 10 2 c.second ++ rest)))))

/-- `.999999999`: no zeros at the end, and no point if there is nothing after it. -/
def fraction (nano : ℕ) : List Char :=
  if nano = 0 then [] else '.' :: (digits 10 9 nano).rdropWhile (· = '0')

/-- `2006-01-02T15:04:05.999999999Z`. -/
def formatNano (t : ℤ) : List Char :=
  toSeconds (ofInstant t) (fraction (ofInstant t).nano ++ ['Z'])

/-- `2006-01-02T15:04:05.000Z`. -/
def formatMilli (t : ℤ) : List Char :=
  toSeconds (ofInstant t) ('.' :: (digits 10 3 ((ofInstant t).nano / 1000000) ++ ['Z']))

/-! ## Reading -/

/-- A number of `w` digits. -/
def number (w : ℕ) (cs : List Char) : Option (ℕ × List Char) := read 10 decimal? w 0 cs

/-- The date-time with these fields, if they are in range. -/
def dateTime? (year month day hour minute second : ℕ) : Option DateTime :=
  if h : (1 ≤ month ∧ month ≤ 12) ∧ (1 ≤ day ∧ day ≤ daysIn year month) ∧ hour < 24 ∧ minute < 60 ∧
      second < 60 then
    some
      { year, month, day, hour, minute, second, nano := 0
        month_pos := h.1.1
        month_le := h.1.2
        day_pos := h.2.1.1
        day_le := h.2.1.2
        hour_lt := h.2.2.1
        minute_lt := h.2.2.2.1
        second_lt := h.2.2.2.2
        nano_lt := by omega }
  else none

/-- An hour, in two digits or one. -/
def hourNumber (cs : List Char) : Option (ℕ × List Char) := (number 2 cs).or (number 1 cs)

/-- Some blanks. -/
def blanks (cs : List Char) : Option (List Char) := (expect ' ' cs).map (List.dropWhile (· = ' '))

/-- A date-time up to its seconds, with `sep` between the date and the time of day. -/
def readSeconds (sep : List Char → Option (List Char)) (cs : List Char) :
    Option (DateTime × List Char) := do
  let (year, cs) ← number 4 cs
  let cs ← expect '-' cs
  let (month, cs) ← number 2 cs
  let cs ← expect '-' cs
  let (day, cs) ← number 2 cs
  let cs ← sep cs
  let (hour, cs) ← hourNumber cs
  let cs ← expect ':' cs
  let (minute, cs) ← number 2 cs
  let cs ← expect ':' cs
  let (second, cs) ← number 2 cs
  let c ← dateTime? year month day hour minute second
  return (c, cs)

/-- The nanoseconds of the digits after the point: the first nine count. -/
def fractionValue (ds : List Char) : ℕ :=
  match number 9 ((ds ++ List.replicate 9 '0').take 9) with
  | some (n, _) => n
  | none => 0

/-- A point, or a comma. -/
def readPoint (cs : List Char) : Option (List Char) := (expect '.' cs).or (expect ',' cs)

/-- A fraction, if there is one. -/
def readFraction (cs : List Char) : ℕ × List Char :=
  match readPoint cs with
  | some (c :: r) =>
    if c.isDigit then
      (fractionValue ((c :: r).takeWhile Char.isDigit), (c :: r).dropWhile Char.isDigit)
    else (0, cs)
  | _ => (0, cs)

/-- `Z` or an offset, in minutes, at the end. -/
def readZone : List Char → Option ℤ
  | [] => none
  | sign :: cs =>
    if sign = 'Z' ∧ cs = [] then some 0
    else do
      let (hours, cs) ← number 2 cs
      let cs ← expect ':' cs
      let (minutes, cs) ← number 2 cs
      if hours ≤ 24 ∧ minutes ≤ 60 ∧ cs = [] then
        if sign = '+' then some (hours * 60 + minutes)
        else if sign = '-' then some (-(hours * 60 + minutes))
        else none
      else none

/-- The instant of an RFC 3339 text. -/
def parseRFC3339 (cs : List Char) : Option ℤ := do
  let (c, cs) ← readSeconds (expect 'T') cs
  let minutes ← readZone (readFraction cs).2
  return c.instant + (readFraction cs).1 - minutes * 60000000000

/-- The instant of a text with three digits after the point. -/
def parseMilli (cs : List Char) : Option ℤ := do
  let (c, cs) ← readSeconds (expect 'T') cs
  let cs ← readPoint cs
  let (milli, cs) ← number 3 cs
  let cs ← expect 'Z' cs
  if cs = [] then some (c.instant + milli * 1000000) else none

/-! ## What is written can be read -/

theorem number_digits {w n : ℕ} (h : n < 10 ^ w) (r : List Char) :
    number w (digits 10 w n ++ r) = some (n, r) := by
  rw [number, read_digits (by omega) decimal?_digitChar r 0 h, Nat.zero_mul, Nat.zero_add]

theorem hourNumber_digits {n : ℕ} (h : n < 10 ^ 2) (r : List Char) :
    hourNumber (digits 10 2 n ++ r) = some (n, r) := by
  rw [hourNumber, number_digits h, some_or]

theorem readPoint_point (cs : List Char) : readPoint ('.' :: cs) = some cs := by
  rw [readPoint, expect_self, some_or]

/-- A year with four digits. -/
def FourDigits (t : ℤ) : Prop := 0 ≤ (ofInstant t).year ∧ (ofInstant t).year < 10000

instance (t : ℤ) : Decidable (FourDigits t) := inferInstanceAs (Decidable (_ ∧ _))

theorem yearText_fourDigits {t : ℤ} (h : FourDigits t) :
    yearText (ofInstant t).year = digits 10 4 (ofInstant t).year.toNat := by
  obtain ⟨hnonneg, hlt⟩ := h
  rw [yearText, if_neg (by omega), padded, if_pos (by omega)]

theorem daysIn_le (y : ℤ) (m : ℕ) : daysIn y m ≤ 31 := by
  unfold daysIn
  repeat' split
  all_goals omega

theorem dateTime?_eq (c : DateTime) (h : 0 ≤ c.year) :
    ∃ c', dateTime? c.year.toNat c.month c.day c.hour c.minute c.second = some c' ∧
      c'.instant + c.nano = c.instant := by
  have hyear : ((c.year.toNat : ℕ) : ℤ) = c.year := Int.toNat_of_nonneg h
  rw [dateTime?, dif_pos ⟨⟨c.month_pos, c.month_le⟩, ⟨c.day_pos, by rw [hyear]; exact c.day_le⟩,
    c.hour_lt, c.minute_lt, c.second_lt⟩]
  refine ⟨_, rfl, ?_⟩
  simp only [instant, dayNumber, timeOfDay, hyear]
  omega

/-- The fields of a date-time fit their widths. -/
theorem fieldsBelow {t : ℤ} (h : FourDigits t) : (ofInstant t).year.toNat < 10 ^ 4 ∧
    (ofInstant t).month < 10 ^ 2 ∧ (ofInstant t).day < 10 ^ 2 ∧ (ofInstant t).hour < 10 ^ 2 ∧
    (ofInstant t).minute < 10 ^ 2 ∧ (ofInstant t).second < 10 ^ 2 ∧
    (ofInstant t).nano / 1000000 < 10 ^ 3 := by
  have hyear := h.2
  have hmonth := (ofInstant t).month_le
  have hday := (ofInstant t).day_le.trans (daysIn_le _ _)
  have hhour := (ofInstant t).hour_lt
  have hminute := (ofInstant t).minute_lt
  have hsecond := (ofInstant t).second_lt
  have hnano := (ofInstant t).nano_lt
  omega

/-- The fields of a date-time are read back. -/
theorem readSeconds_toSeconds {t : ℤ} (h : FourDigits t) (r : List Char) :
    ∃ c, readSeconds (expect 'T') (toSeconds (ofInstant t) r) = some (c, r) ∧
      c.instant + (ofInstant t).nano = t := by
  obtain ⟨c, hc, hinstant⟩ := dateTime?_eq (ofInstant t) h.1
  obtain ⟨hyear, hmonth, hday, hhour, hminute, hsecond, -⟩ := fieldsBelow h
  refine ⟨c, ?_, by rw [hinstant, instant_ofInstant]⟩
  rw [toSeconds, yearText_fourDigits h, readSeconds]
  -- field by field, as they stand in the text
  refine bind_eq_some_iff.mpr ⟨_, number_digits hyear _, ?_⟩
  refine bind_eq_some_iff.mpr ⟨_, expect_self _ _, ?_⟩
  refine bind_eq_some_iff.mpr ⟨_, number_digits hmonth _, ?_⟩
  refine bind_eq_some_iff.mpr ⟨_, expect_self _ _, ?_⟩
  refine bind_eq_some_iff.mpr ⟨_, number_digits hday _, ?_⟩
  refine bind_eq_some_iff.mpr ⟨_, expect_self _ _, ?_⟩
  refine bind_eq_some_iff.mpr ⟨_, hourNumber_digits hhour _, ?_⟩
  refine bind_eq_some_iff.mpr ⟨_, expect_self _ _, ?_⟩
  refine bind_eq_some_iff.mpr ⟨_, number_digits hminute _, ?_⟩
  refine bind_eq_some_iff.mpr ⟨_, expect_self _ _, ?_⟩
  refine bind_eq_some_iff.mpr ⟨_, number_digits hsecond _, ?_⟩
  exact bind_eq_some_iff.mpr ⟨c, hc, rfl⟩

/-- Zeros at the end of the fraction do not count. -/
theorem fractionValue_rdropWhile {n : ℕ} (h : n < 10 ^ 9) :
    fractionValue ((digits 10 9 n).rdropWhile (· = '0')) = n := by
  have hsplit : (digits 10 9 n).rdropWhile (· = '0') ++ (digits 10 9 n).rtakeWhile (· = '0') =
      digits 10 9 n := rdropWhile_append_rtakeWhile
  have hlength : ((digits 10 9 n).rdropWhile (· = '0')).length +
      ((digits 10 9 n).rtakeWhile (· = '0')).length = 9 := by
    rw [← length_append, hsplit, length_digits]
  have hzeros : (digits 10 9 n).rtakeWhile (· = '0') =
      List.replicate ((digits 10 9 n).rtakeWhile (· = '0')).length '0' := by
    rw [eq_replicate_iff]
    refine ⟨rfl, fun c hc => ?_⟩
    have hzero := mem_rtakeWhile_imp hc
    exact of_decide_eq_true hzero
  have htake : (((digits 10 9 n).rdropWhile (· = '0')) ++ List.replicate 9 '0').take 9 =
      digits 10 9 n := by
    rw [take_append, take_of_length_le (by omega), take_replicate,
      min_eq_left (by omega)]
    conv_rhs => rw [← hsplit, hzeros]
    congr 2
    omega
  have hnumber := number_digits h []
  rw [append_nil] at hnumber
  rw [fractionValue, htake, hnumber]

theorem readFraction_fraction {n : ℕ} (h : n < 10 ^ 9) :
    readFraction (fraction n ++ ['Z']) = (n, ['Z']) := by
  rw [fraction]
  split
  · rename_i hzero
    rw [hzero]
    rfl
  · rename_i hne
    -- the fraction has a digit that is not zero, so something is left of it
    have hsome : (digits 10 9 n).rdropWhile (· = '0') ≠ [] := by
      intro hnil
      rw [rdropWhile_eq_nil_iff] at hnil
      have hzeros : digits 10 9 n = digits 10 9 0 := by
        rw [digits_zero, eq_replicate_iff]
        exact ⟨length_digits 10 9 n, fun c hc => of_decide_eq_true (hnil c hc)⟩
      exact hne ((digits_inj (by omega) (by omega) h (by omega)).mp hzeros)
    have hdigits : ∀ c ∈ (digits 10 9 n).rdropWhile (· = '0'), c.isDigit = true := fun c hc =>
      isDigit_of_mem_digits h c (( rdropWhile_prefix _ _).subset hc)
    have hvalue := fractionValue_rdropWhile h
    revert hsome hdigits hvalue
    rcases (digits 10 9 n).rdropWhile (· = '0') with _ | ⟨c, ds⟩
    · exact fun hsome => absurd rfl hsome
    · intro _ hdigits hvalue
      have hc := hdigits c mem_cons_self
      rw [readFraction, cons_append, readPoint_point]
      show (if c.isDigit then (fractionValue (((c :: ds) ++ ['Z']).takeWhile Char.isDigit),
        ((c :: ds) ++ ['Z']).dropWhile Char.isDigit) else _) = _
      rw [if_pos hc, takeWhile_append_of_pos hdigits, dropWhile_append_of_pos hdigits]
      show (fractionValue ((c :: ds) ++ []), ['Z']) = _
      rw [append_nil, hvalue]

/-- **An instant is read back from its text**, if its year has four digits. -/
theorem parse_formatNano {t : ℤ} (h : FourDigits t) : parseRFC3339 (formatNano t) = some t := by
  obtain ⟨c, hread, hinstant⟩ := readSeconds_toSeconds h (fraction (ofInstant t).nano ++ ['Z'])
  rw [parseRFC3339, formatNano, hread]
  show ((readZone (readFraction (fraction (ofInstant t).nano ++ ['Z'])).2).bind fun minutes =>
    some (c.instant + (readFraction (fraction (ofInstant t).nano ++ ['Z'])).1 -
      minutes * 60000000000)) = _
  rw [readFraction_fraction (ofInstant t).nano_lt]
  show some (c.instant + (ofInstant t).nano - 0) = some t
  rw [hinstant, sub_zero]

/-- In three digits, what is below a millisecond is lost. -/
theorem parse_formatMilli {t : ℤ} (h : FourDigits t) :
    parseMilli (formatMilli t) = some (t / 1000000 * 1000000) := by
  obtain ⟨c, hread, hinstant⟩ :=
    readSeconds_toSeconds h ('.' :: (digits 10 3 ((ofInstant t).nano / 1000000) ++ ['Z']))
  obtain ⟨-, -, -, -, -, -, hmilli⟩ := fieldsBelow h
  rw [parseMilli, formatMilli, hread]
  simp only [bind_eq_bind, Option.bind_some, readPoint_point, expect_self,
    number_digits hmilli, if_true]
  -- the seconds are a whole number of milliseconds
  have ht := instant_ofInstant t
  rw [instant, timeOfDay] at ht
  congr 1
  omega

/-! ## Texts compare as instants do -/

/-- **Texts with three digits compare as milliseconds do**, if the years have four digits. -/
theorem formatMilli_lt_iff {s t : ℤ} (hs : FourDigits s) (ht : FourDigits t) :
    formatMilli s < formatMilli t ↔ s / 1000000 < t / 1000000 := by
  have hinstant : s / 1000000 < t / 1000000 ↔
      (ofInstant s).toMilli.instant < (ofInstant t).toMilli.instant := by
    rw [instant_toMilli, instant_toMilli, instant_ofInstant, instant_ofInstant]
    omega
  obtain ⟨hyear, hmonth, hday, hhour, hminute, hsecond, hmilli⟩ := fieldsBelow hs
  obtain ⟨hyear', hmonth', hday', hhour', hminute', hsecond', hmilli'⟩ := fieldsBelow ht
  rw [hinstant, instant_lt_iff, formatMilli, formatMilli, toSeconds, toSeconds,
    yearText_fourDigits hs, yearText_fourDigits ht,
    field_sep_lt_iff (by decide) (by decide) hyear hyear',
    field_sep_lt_iff (by decide) (by decide) hmonth hmonth',
    field_sep_lt_iff (by decide) (by decide) hday hday',
    field_sep_lt_iff (by decide) (by decide) hhour hhour',
    field_sep_lt_iff (by decide) (by decide) hminute hminute',
    field_sep_lt_iff (by decide) (by decide) hsecond hsecond',
    field_sep_lt_iff (by decide) (by decide) hmilli hmilli']
  -- both sides go through the fields; a year with four digits is its number
  have hs0 := hs.1
  have ht0 := ht.1
  simp only [Before, toMilli, lt_irrefl, and_false, or_false]
  clear hinstant
  omega

theorem formatMilli_inj {s t : ℤ} (hs : FourDigits s) (ht : FourDigits t) :
    formatMilli s = formatMilli t ↔ s / 1000000 = t / 1000000 := by
  rw [le_antisymm_iff, le_antisymm_iff, ← not_lt, ← not_lt, formatMilli_lt_iff ht hs,
    formatMilli_lt_iff hs ht, not_lt, not_lt]

/-- A negative year comes first. -/
theorem formatMilli_lt_of_negative {s t : ℤ} (hs : (ofInstant s).year < 0) (ht : FourDigits t) :
    formatMilli s < formatMilli t := by
  rw [formatMilli, formatMilli, toSeconds, toSeconds, yearText_fourDigits ht, yearText, if_pos hs]
  obtain ⟨hyear, -⟩ := fieldsBelow ht
  have hsign : ∀ d < 10, '-' < Nat.digitChar d := by decide
  have hhead : (ofInstant t).year.toNat / 10 ^ 3 < 10 :=
    Nat.div_lt_of_lt_mul (by rwa [← pow_succ])
  exact cons_lt_cons_iff.mpr (.inl (hsign _ hhead))

/-- **A year with five digits comes too early**, right after the year 1000. -/
theorem formatMilli_lt_tenThousand_iff {s t : ℤ} (hs : FourDigits s)
    (ht : (ofInstant t).year = 10000) :
    formatMilli s < formatMilli t ↔ (ofInstant s).year ≤ 1000 := by
  obtain ⟨hyear, -⟩ := fieldsBelow hs
  have hs0 := hs.1
  have hfive : yearText 10000 = digits 10 4 1000 ++ ['0'] := by decide +kernel
  -- the fifth digit stands against the hyphen, which is a smaller character
  rw [formatMilli, formatMilli, toSeconds, toSeconds, yearText_fourDigits hs, ht, hfive,
    append_assoc, singleton_append,
    field_lt_iff (by decide) (by decide) hyear (show 1000 < 10 ^ 4 by decide), cons_lt_cons_iff]
  simp only [show '-' < '0' from by decide, true_or, and_true]
  omega

/-! ## What can be read -/

theorem number_lt {w n : ℕ} {cs r : List Char} (h : number w cs = some (n, r)) : n < 10 ^ w := by
  have hlt := lt_of_read lt_of_decimal? h
  omega

/-- What is read up to the seconds has a year with four digits, and no fraction. -/
theorem readSeconds_year {sep : List Char → Option (List Char)} {cs r : List Char} {c : DateTime}
    (h : readSeconds sep cs = some (c, r)) : c.year < 10000 ∧ c.nano = 0 := by
  rw [readSeconds] at h
  obtain ⟨⟨year, _⟩, hyear, h⟩ := bind_eq_some_iff.mp h
  obtain ⟨_, -, h⟩ := bind_eq_some_iff.mp h
  obtain ⟨⟨month, _⟩, -, h⟩ := bind_eq_some_iff.mp h
  obtain ⟨_, -, h⟩ := bind_eq_some_iff.mp h
  obtain ⟨⟨day, _⟩, -, h⟩ := bind_eq_some_iff.mp h
  obtain ⟨_, -, h⟩ := bind_eq_some_iff.mp h
  obtain ⟨⟨hour, _⟩, -, h⟩ := bind_eq_some_iff.mp h
  obtain ⟨_, -, h⟩ := bind_eq_some_iff.mp h
  obtain ⟨⟨minute, _⟩, -, h⟩ := bind_eq_some_iff.mp h
  obtain ⟨_, -, h⟩ := bind_eq_some_iff.mp h
  obtain ⟨⟨second, _⟩, -, h⟩ := bind_eq_some_iff.mp h
  obtain ⟨c', hc, hreturn⟩ := bind_eq_some_iff.mp h
  have hlt := number_lt hyear
  injection hreturn with hreturn
  have hcc : c' = c := congrArg Prod.fst hreturn
  subst hcc
  rw [dateTime?] at hc
  split at hc
  · injection hc with hc
    subst hc
    exact ⟨by simp only; omega, rfl⟩
  · cases hc

theorem fractionValue_lt (ds : List Char) : fractionValue ds < 1000000000 := by
  rw [fractionValue]
  rcases h : number 9 ((ds ++ List.replicate 9 '0').take 9) with _ | ⟨n, r⟩
  · exact Nat.zero_lt_succ _
  · exact number_lt h

theorem readFraction_lt (cs : List Char) : (readFraction cs).1 < 1000000000 := by
  unfold readFraction
  split
  · split
    · exact fractionValue_lt _
    · exact Nat.zero_lt_succ _
  · exact Nat.zero_lt_succ _

/-- An offset is a day and an hour at most. -/
theorem readZone_lt {cs : List Char} {minutes : ℤ} (h : readZone cs = some minutes) :
    -1500 ≤ minutes ∧ minutes ≤ 1500 := by
  unfold readZone at h
  split at h
  · nomatch h
  · split at h
    · injection h with h
      omega
    · simp only [bind_eq_bind, bind_eq_some_iff] at h
      obtain ⟨⟨hours, _⟩, -, _, -, ⟨mins, _⟩, -, h⟩ := h
      split at h
      · rename_i hrange
        simp only at h hrange
        split at h
        · injection h with h
          omega
        · split at h
          · injection h with h
            omega
          · nomatch h
      · nomatch h

/-- With an offset, what is read may be a day after the last year with four digits. -/
theorem year_of_parse {cs : List Char} {t : ℤ} (h : parseRFC3339 cs = some t) :
    (ofInstant t).year ≤ 10000 := by
  rw [parseRFC3339] at h
  simp only [bind_eq_bind, bind_eq_some_iff] at h
  obtain ⟨⟨c, rest⟩, hread, minutes, hzone, hreturn⟩ := h
  obtain ⟨hyear, hnano⟩ := readSeconds_year hread
  have hfraction := readFraction_lt rest
  have hoffset := readZone_lt hzone
  -- the last second of the year 9999 is a second before the year 10000
  have hbefore : c.instant + 1000000000 ≤ yearStart 10000 * 86400000000000 := by
    have hstart : yearStart (c.year + 1) ≤ yearStart 10000 := yearStart_mono (by omega)
    have hday := c.dayNumber_lt
    have htime : c.timeOfDay + 1000000000 ≤ 86400000000000 := by
      have hhour := c.hour_lt
      have hminute := c.minute_lt
      have hsecond := c.second_lt
      rw [timeOfDay, hnano]
      omega
    rw [instant]
    omega
  injection hreturn with hreturn
  have hlt : (ofInstant t).year < 10001 := by
    rw [year_lt_iff]
    have hstart : yearStart 10001 = yearStart 10000 + 366 := by decide
    simp only at hreturn
    omega
  omega

end TimeText
