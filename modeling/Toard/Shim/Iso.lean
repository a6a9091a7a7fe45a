/-
**Times as ISO 8601 texts (`iso.rs`).**

The collector prints the milliseconds since the epoch as a UTC text and reads the timestamps of the
logs, without a date library.
-/

import Toard.Json.Value
import Toard.Library.Calendar
import Toard.Library.Digits

namespace Toard.Shim

open Toard.Library

/-! ### Days -/

/-- `days_from_civil`. A quotient of the source is cut off towards zero. -/
def daysFromCivil (y : Int) (m d : Nat) : Int :=
  let y := if m ≤ 2 then y - 1 else y
  let era := (if 0 ≤ y then y else y - 399).tdiv 400
  let yoe := y - era * 400
  let mp : Int := if m > 2 then m - 3 else m + 9
  let doy := (153 * mp + 2) / 5 + d - 1
  let doe := yoe * 365 + yoe / 4 - yoe / 100 + doy
  era * 146097 + doe - 719468

/-- `civil_from_days`: year, month and day of the month. -/
def civilFromDays (z : Int) : Int × Nat × Nat :=
  let z := z + 719468
  let era := (if 0 ≤ z then z else z - 146096).tdiv 146097
  let doe := z - era * 146097
  let yoe := (doe - doe / 1460 + doe / 36524 - doe / 146096) / 365
  let y := yoe + era * 400
  let doy := doe - (365 * yoe + yoe / 4 - yoe / 100)
  let mp := (5 * doy + 2) / 153
  let d := (doy - (153 * mp + 2) / 5 + 1).toNat
  let m := (if mp < 10 then mp + 3 else mp - 9).toNat
  (if m ≤ 2 then y + 1 else y, m, d)

theorem tdiv_era (z : Int) {length : Int} (positive : 0 < length) :
    (if 0 ≤ z then z else z - (length - 1)).tdiv length = z / length := by
  split
  · next nonneg => exact Int.tdiv_eq_ediv_of_nonneg nonneg
  · next negative =>
    have shifted : z - (length - 1) = -(length - 1 - z) := by omega
    rw [shifted, Int.neg_tdiv, Int.tdiv_eq_ediv_of_nonneg (by omega)]
    have whole := Int.mul_ediv_add_emod z length
    have low := Int.emod_nonneg z (by omega : length ≠ 0)
    have high := Int.emod_lt_of_pos z positive
    have split : length - 1 - z = (length - 1 - z % length) + length * (-(z / length)) := by
      rw [Int.mul_neg]
      omega
    rw [split, Int.add_mul_ediv_left _ _ (by omega), Int.ediv_eq_zero_of_lt (by omega) (by omega)]
    omega

theorem era_days (y : Int) :
    y / 400 * 146097 + ((y - y / 400 * 400) * 365 + (y - y / 400 * 400) / 4
      - (y - y / 400 * 400) / 100) = 365 * y + leapDays y := by
  have fours : (y - y / 400 * 400) / 4 = y / 4 - y / 400 * 100 := by omega
  have hundreds : (y - y / 400 * 400) / 100 = y / 100 - y / 400 * 4 := by omega
  rw [fours, hundreds, leapDays]
  omega

/-- **The day number of a date.** -/
theorem daysFromCivil_eq (y : Int) {m : Nat} (d : Nat) (isMonth : 1 ≤ m ∧ m ≤ 12) :
    daysFromCivil y m d = dayNumber y m d := by
  have era := tdiv_era (if m ≤ 2 then y - 1 else y) (show (0 : Int) < 400 by decide)
  norm_num at era
  have days := era_days (if m ≤ 2 then y - 1 else y)
  have leap := leapDays_eq y
  simp only [daysFromCivil, era, dayNumber, dayFromYear_eq, monthStart]
  rw [← Int.add_assoc, days]
  obtain ⟨low, high⟩ := isMonth
  interval_cases m <;> simp [commonMonthStart, leap] <;> omega

theorem exists_era_parts (doe : Int) (low : 0 ≤ doe) (high : doe < 146097) :
    ∃ c q s r : Int, (0 ≤ c ∧ c ≤ 3) ∧ (0 ≤ q ∧ q ≤ 24) ∧ (0 ≤ s ∧ s ≤ 3) ∧
      (0 ≤ r ∧ r ≤ 364 ∨ r = 365 ∧ s = 3 ∧ (q < 24 ∨ c = 3)) ∧
      doe = 36524 * c + 1461 * q + 365 * s + r := by
  obtain ⟨c, isCentury⟩ : ∃ c, c = min (doe / 36524) 3 := ⟨_, rfl⟩
  obtain ⟨day, isDay⟩ : ∃ day, day = doe - 36524 * c := ⟨_, rfl⟩
  obtain ⟨q, isCycle⟩ : ∃ q, q = day / 1461 := ⟨_, rfl⟩
  obtain ⟨rest, isRest⟩ : ∃ rest, rest = day - 1461 * q := ⟨_, rfl⟩
  obtain ⟨s, isYear⟩ : ∃ s, s = min (rest / 365) 3 := ⟨_, rfl⟩
  refine ⟨c, q, s, rest - 365 * s, ?_, ?_, ?_, ?_, ?_⟩ <;> omega

theorem era_year {c q s r : Int} (century : 0 ≤ c ∧ c ≤ 3) (cycle : 0 ≤ q ∧ q ≤ 24)
    (year : 0 ≤ s ∧ s ≤ 3) (day : 0 ≤ r ∧ r ≤ 364 ∨ r = 365 ∧ s = 3 ∧ (q < 24 ∨ c = 3))
    {doe : Int} (isDay : doe = 36524 * c + 1461 * q + 365 * s + r) :
    (doe - doe / 1460 + doe / 36524 - doe / 146096) / 365 = 100 * c + 4 * q + s := by
  have quarters : doe / 1460 = 25 * c + q + (24 * c + q + 365 * s + r) / 1460 := by omega
  have carry : (24 * c + q + 365 * s + r) / 1460 = 0 ∨ (24 * c + q + 365 * s + r) / 1460 = 1 := by
    omega
  have within : 0 ≤ 1461 * q + 365 * s + r ∧ 1461 * q + 365 * s + r ≤ 36524 := by omega
  have centuries : doe / 36524 - doe / 146096 = c := by
    by_cases last : 1461 * q + 365 * s + r = 36524
    · have isLast : c = 3 := by omega
      subst isLast
      omega
    · have isCentury : doe / 36524 = c := by omega
      omega
  rcases carry with none | one <;> omega

theorem era_yearStart {c q s : Int} (cycle : 0 ≤ q ∧ q ≤ 24) (year : 0 ≤ s ∧ s ≤ 3) :
    365 * (100 * c + 4 * q + s) + (100 * c + 4 * q + s) / 4 - (100 * c + 4 * q + s) / 100
      = 36524 * c + 1461 * q + 365 * s := by
  have cycles : (100 * c + 4 * q + s) / 4 = 25 * c + q := by omega
  have centuries : (100 * c + 4 * q + s) / 100 = c := by omega
  rw [cycles, centuries]
  omega

theorem exists_era (z : Int) : ∃ era doe yoe r : Int,
    era = (z + 719468) / 146097 ∧ doe = z + 719468 - era * 146097 ∧ (0 ≤ yoe ∧ yoe ≤ 399) ∧
    (0 ≤ r ∧ r ≤ 365) ∧ (doe - doe / 1460 + doe / 36524 - doe / 146096) / 365 = yoe ∧
    doe = 365 * yoe + yoe / 4 - yoe / 100 + r ∧
    (r = 365 → isLeapYear (yoe + era * 400 + 1)) := by
  obtain ⟨era, isEra⟩ : ∃ era, era = (z + 719468) / 146097 := ⟨_, rfl⟩
  obtain ⟨doe, isDoe⟩ : ∃ doe, doe = z + 719468 - era * 146097 := ⟨_, rfl⟩
  obtain ⟨c, q, s, r, century, cycle, year, day, parts⟩ :=
    exists_era_parts doe (by omega) (by omega)
  refine ⟨era, doe, 100 * c + 4 * q + s, r, isEra, isDoe, ?_, ?_,
    era_year century cycle year day parts, ?_, ?_⟩
  · clear isDoe parts isEra
    omega
  · clear isDoe parts isEra
    omega
  · rw [era_yearStart cycle year, parts]
  · intro last
    clear isDoe parts isEra
    simp only [isLeapYear, decide_eq_true_eq]
    omega

theorem month_of_day {r : Int} (isDay : 0 ≤ r ∧ r ≤ 365) {mp : Int} (isMonth : mp = (5 * r + 2) / 153) :
    (0 ≤ mp ∧ mp ≤ 11) ∧ 1 ≤ r - (153 * mp + 2) / 5 + 1 ∧ r - (153 * mp + 2) / 5 + 1 ≤ 31 := by
  have bounds : 0 ≤ mp ∧ mp ≤ 11 := by omega
  obtain ⟨low, high⟩ := bounds
  refine ⟨⟨low, high⟩, ?_⟩
  interval_cases mp <;> omega

theorem daysFromCivil_march {era yoe mp day : Int} (year : 0 ≤ yoe ∧ yoe ≤ 399)
    (month : 0 ≤ mp ∧ mp ≤ 11) (positive : 0 ≤ day) :
    daysFromCivil (if (if mp < 10 then mp + 3 else mp - 9).toNat ≤ 2 then yoe + era * 400 + 1
        else yoe + era * 400) (if mp < 10 then mp + 3 else mp - 9).toNat day.toNat
      = era * 146097 + (365 * yoe + yoe / 4 - yoe / 100 + ((153 * mp + 2) / 5 + day - 1))
        - 719468 := by
  have march : ∀ y : Int, (if (if mp < 10 then mp + 3 else mp - 9).toNat ≤ 2 then
      (if (if mp < 10 then mp + 3 else mp - 9).toNat ≤ 2 then y + 1 else y) - 1
      else (if (if mp < 10 then mp + 3 else mp - 9).toNat ≤ 2 then y + 1 else y)) = y := by
    intro y
    split <;> omega
  have eraOf := tdiv_era (yoe + era * 400) (show (0 : Int) < 400 by decide)
  norm_num at eraOf
  have sameEra : (yoe + era * 400) / 400 = era := by omega
  have sameMonth : (if (if mp < 10 then mp + 3 else mp - 9).toNat > 2 then
      (((if mp < 10 then mp + 3 else mp - 9).toNat : Int) - 3)
      else (((if mp < 10 then mp + 3 else mp - 9).toNat : Int) + 9)) = mp := by
    obtain ⟨low, high⟩ := month
    interval_cases mp <;> rfl
  simp only [daysFromCivil, march, eraOf, sameEra, sameMonth, Int.toNat_of_nonneg positive]
  have sameYear : yoe + era * 400 - era * 400 = yoe := by omega
  rw [sameYear]
  omega

/-- **The date of a day number.** -/
theorem civilFromDays_spec (z : Int) : ∃ y m d, civilFromDays z = (y, m, d) ∧
    (1 ≤ m ∧ m ≤ 12) ∧ (1 ≤ d ∧ d ≤ 31) ∧ dayNumber y m d = z := by
  have eraOf := tdiv_era (z + 719468) (show (0 : Int) < 146097 by decide)
  norm_num at eraOf
  obtain ⟨era, doe, yoe, r, isEra, isDoe, year, day, isYear, whole, -⟩ := exists_era z
  obtain ⟨mp, isMp⟩ : ∃ mp, mp = (5 * r + 2) / 153 := ⟨_, rfl⟩
  obtain ⟨month, dLow, dHigh⟩ := month_of_day day isMp
  have dayOfYear : doe - (365 * yoe + yoe / 4 - yoe / 100) = r := by
    rw [whole]
    omega
  have isMonth : 1 ≤ (if mp < 10 then mp + 3 else mp - 9).toNat ∧
      (if mp < 10 then mp + 3 else mp - 9).toNat ≤ 12 := by
    clear isEra isDoe isYear whole isMp dLow dHigh dayOfYear
    split <;> omega
  refine ⟨_, _, _, rfl, ?_, ?_, ?_⟩
  · simpa only [eraOf, ← isEra, ← isDoe, isYear, dayOfYear, ← isMp] using isMonth
  · simp only [eraOf, ← isEra, ← isDoe, isYear, dayOfYear, ← isMp]
    clear isEra isDoe isYear whole isMp dayOfYear
    omega
  · simp only [eraOf, ← isEra, ← isDoe, isYear, dayOfYear, ← isMp]
    rw [← daysFromCivil_eq _ _ isMonth, daysFromCivil_march year month (by omega)]
    clear isEra isYear isMp dLow dHigh dayOfYear isMonth month day year eraOf
    generalize yoe / 4 = cycles at whole ⊢
    generalize yoe / 100 = centuries at whole ⊢
    generalize (153 * mp + 2) / 5 = months
    omega

theorem civilFromDays_day_le (z : Int) :
    (civilFromDays z).2.2 ≤ monthLength (civilFromDays z).1 (civilFromDays z).2.1 := by
  have eraOf := tdiv_era (z + 719468) (show (0 : Int) < 146097 by decide)
  norm_num at eraOf
  obtain ⟨era, doe, yoe, r, isEra, isDoe, year, day, isYear, whole, leap⟩ := exists_era z
  obtain ⟨mp, isMp⟩ : ∃ mp, mp = (5 * r + 2) / 153 := ⟨_, rfl⟩
  obtain ⟨⟨low, high⟩, -, -⟩ := month_of_day day isMp
  have dayOfYear : doe - (365 * yoe + yoe / 4 - yoe / 100) = r := by
    rw [whole]
    omega
  simp only [civilFromDays, eraOf, ← isEra, ← isDoe, isYear, dayOfYear, ← isMp]
  clear eraOf isEra isDoe isYear whole dayOfYear
  interval_cases mp
  case «11» =>
    by_cases last : r = 365
    · simp [monthLength, leap last, last]
    · simp only [monthLength]
      norm_num
      split <;> omega
  all_goals
    simp [monthLength]
    omega

/-! ### Printing -/

/-- `format!("{:0width$}")`: the sign counts into the width. -/
def padInt (width : Nat) (n : Int) : List Char :=
  if n < 0 then '-' :: zeroPad (width - 1) n.natAbs else zeroPad width n.toNat

/-- The text of a year, a month, a day and a time of the day in milliseconds. -/
def isoChars (date : Int × Nat × Nat) (rem : Nat) : List Char :=
  padInt 4 date.1 ++ '-' :: (zeroPad 2 date.2.1 ++ '-' :: (zeroPad 2 date.2.2 ++ 'T' ::
    (zeroPad 2 (rem / 1000 / 3600) ++ ':' :: (zeroPad 2 (rem / 1000 % 3600 / 60) ++ ':' ::
      (zeroPad 2 (rem / 1000 % 60) ++ '.' :: (zeroPad 3 (rem % 1000) ++ ['Z']))))))

/-- `epoch_ms_to_iso`. -/
def epochMsToIso (ms : Int) : String :=
  String.ofList (isoChars (civilFromDays (ms / 86400000)) (ms % 86400000).toNat)

theorem epochMsToIso_ne_empty (ms : Int) : epochMsToIso ms ≠ "" := by
  intro empty
  have chars := congrArg String.toList empty
  simp [epochMsToIso, isoChars] at chars

example : epochMsToIso 1719800000123 = "2024-07-01T02:13:20.123Z" := by decide

/-! ### Reading -/

/-- White space as `str::trim` takes it off. -/
def isWhiteSpace (c : Char) : Bool :=
  (9 ≤ c.toNat && c.toNat ≤ 13) || c.toNat == 0x20 || c.toNat == 0x85 || c.toNat == 0xA0 ||
    c.toNat == 0x1680 || (0x2000 ≤ c.toNat && c.toNat ≤ 0x200A) || c.toNat == 0x2028 ||
    c.toNat == 0x2029 || c.toNat == 0x202F || c.toNat == 0x205F || c.toNat == 0x3000

def trim (s : List Char) : List Char :=
  ((s.dropWhile isWhiteSpace).reverse.dropWhile isWhiteSpace).reverse

/-- `str::parse::<i64>` on a few characters: digits behind an optional sign. -/
def parseI64 (s : List Char) : Option Int :=
  let sign := Json.signPart s
  if sign.2 ≠ [] ∧ sign.2.all Char.isDigit then
    let n : Int := Nat.ofDigitChars 10 sign.2 0
    some (if sign.1 = ['-'] then -n else n)
  else none

def num (s : List Char) (first last : Nat) : Option Int :=
  if last ≤ s.length then parseI64 ((s.take last).drop first) else none

/-- The fraction of a second at a position, in milliseconds, and the position after it. -/
def isoMillis (s : List Char) (pos : Nat) : Option (Int × Nat) :=
  if s[pos]? = some '.' then
    let digits := (s.drop (pos + 1)).takeWhile Char.isDigit
    if digits = [] then none
    else
      let frac := digits.take 3
      some (Nat.ofDigitChars 10 frac 0 * 10 ^ (3 - frac.length), pos + 1 + digits.length)
  else some (0, pos)

/-- The offset at a position, in minutes. Nothing after it is looked at. -/
def isoOffset (s : List Char) (pos : Nat) : Option Int :=
  match s[pos]? with
  | none => some 0
  | some c =>
    if (c = 'Z' ∨ c = 'z') ∧ pos + 1 = s.length then some 0
    else if c = '+' ∨ c = '-' then do
      let oh ← num s (pos + 1) (pos + 3)
      let om ← match s[pos + 3]? with
        | some ':' => num s (pos + 4) (pos + 6)
        | none => some 0
        | some _ => num s (pos + 3) (pos + 5)
      if oh > 23 ∨ om > 59 then none
      else some (if c = '-' then -(oh * 60 + om) else oh * 60 + om)
    else none

/-- `iso_to_epoch_ms`. The source counts bytes: within the sixteen that it asks for, and up to the
offset, only ASCII characters are let through, so positions of characters are the same. -/
def isoToEpochMs (text : String) : Option Int := do
  let s := trim text.toList
  if s.length < 16 then none
  else
    let year ← num s 0 4
    if s[4]? ≠ some '-' ∨ s[7]? ≠ some '-' then none
    else
      let month ← num s 5 7
      let day ← num s 8 10
      if s[10]? ≠ some 'T' ∧ s[10]? ≠ some 't' ∧ s[10]? ≠ some ' ' then none
      else
        let hour ← num s 11 13
        if s[13]? ≠ some ':' then none
        else
          let minute ← num s 14 16
          if ¬ (1 ≤ month ∧ month ≤ 12) ∨ ¬ (1 ≤ day ∧ day ≤ 31) ∨ hour > 23 ∨ minute > 59 then
            none
          else
            let second ← if s[16]? = some ':' then num s 17 19 else some 0
            if second > 60 then none
            else
              let (milli, pos) ← isoMillis s (if s[16]? = some ':' then 19 else 16)
              let offsetMin ← isoOffset s pos
              let days := daysFromCivil year month.toNat day.toNat
              some ((((days * 24 + hour) * 60 + minute - offsetMin) * 60 + second) * 1000 + milli)

example : isoToEpochMs "2026-07-01T21:00:00.123456+09:00" = some 1782907200123 := by decide

end Toard.Shim
