/-
**The printed times (`iso.rs`).**

For the years that have four digits, what is printed is a written time of that instant, and the
order of the texts is that of the times.
-/

import Toard.Shim.IsoReading

namespace Toard.Shim

open Toard.Library

/-! ### What is printed -/

def DigitText.ofNat (width n : Nat) (positive : 0 < width) (fits : n < 10 ^ width) :
    DigitText width :=
  ⟨zeroPad width n, length_zeroPad positive fits, fun _ => isDigit_of_mem_zeroPad⟩

@[simp]
theorem DigitText.value_ofNat {width n : Nat} (positive : 0 < width) (fits : n < 10 ^ width) :
    (ofNat width n positive fits).value = n := ofDigitChars_zeroPad width n

def FourDigitYear (ms : Int) : Prop :=
  dayFromYear 0 * 86400000 ≤ ms ∧ ms < dayFromYear 10000 * 86400000

theorem civilFromDays_fourDigit {ms : Int} (inside : FourDigitYear ms) : ∃ y m d : Nat,
    civilFromDays (ms / 86400000) = ((y : Int), m, d) ∧ y < 10000 ∧ (1 ≤ m ∧ m ≤ 12) ∧
    (1 ≤ d ∧ d ≤ monthLength y m) ∧ dayNumber y m d = ms / 86400000 := by
  obtain ⟨year, m, d, date, isMonth, isDay, number⟩ := civilFromDays_spec (ms / 86400000)
  have inMonth := civilFromDays_day_le (ms / 86400000)
  rw [date] at inMonth
  obtain ⟨low, high⟩ := inside
  have first : 0 ≤ year := (year_le_iff 0 year isMonth isDay).mpr (by omega)
  have last : ¬ 10000 ≤ year := (year_le_iff 10000 year isMonth isDay).not.mpr (by omega)
  obtain ⟨y, rfl⟩ := Int.eq_ofNat_of_zero_le first
  exact ⟨y, m, d, date, by omega, isMonth, ⟨isDay.1, inMonth⟩, number⟩

theorem isWhiteSpace_of_isDigit {c : Char} (digit : c.isDigit) : isWhiteSpace c = false := by
  have range : 48 ≤ c.toNat ∧ c.toNat ≤ 57 := by
    simpa [Char.isDigit, UInt32.le_iff_toNat_le] using digit
  simp only [isWhiteSpace, Bool.or_eq_false_iff, Bool.and_eq_false_iff, decide_eq_false_iff_not,
    beq_eq_false_iff_ne]
  omega

theorem trim_of_ends {first last : Char} {mid : List Char} (isFirst : isWhiteSpace first = false)
    (isLast : isWhiteSpace last = false) :
    trim (first :: (mid ++ [last])) = first :: (mid ++ [last]) := by
  have reversed : (first :: (mid ++ [last])).reverse = last :: (mid.reverse ++ [first]) := by simp
  rw [trim, List.dropWhile_cons_of_neg (by simp [isFirst]), reversed,
    List.dropWhile_cons_of_neg (by simp [isLast]), ← reversed, List.reverse_reverse]

/-- **What is printed is a written time of that instant.** -/
theorem epochMsToIso_chars {ms : Int} (inside : FourDigitYear ms) : ∃ t : IsoText, t.Documented ∧
    (epochMsToIso ms).toList = t.chars ∧ t.instant = ms := by
  obtain ⟨y, m, d, date, isYear, isMonth, isDay, number⟩ := civilFromDays_fourDigit inside
  have short := monthLength_le y m
  obtain ⟨rem, isRem⟩ : ∃ rem, rem = (ms % 86400000).toNat := ⟨_, rfl⟩
  have within : rem < 86400000 := by omega
  have hour : rem / 1000 / 3600 < 24 := by omega
  have minute : rem / 1000 % 3600 / 60 < 60 := by omega
  have second : rem / 1000 % 60 < 60 := by omega
  have milli : rem % 1000 < 10 ^ 3 := by omega
  refine ⟨{
      year := .ofNat 4 y (by decide) isYear
      month := .ofNat 2 m (by decide) (by omega)
      day := .ofNat 2 d (by decide) (by omega)
      separator := 'T'
      hour := .ofNat 2 (rem / 1000 / 3600) (by decide) (by omega)
      minute := .ofNat 2 (rem / 1000 % 3600 / 60) (by decide) (by omega)
      second := some (.ofNat 2 (rem / 1000 % 60) (by decide) (by omega),
        some ⟨zeroPad 3 (rem % 1000),
          List.ne_nil_of_length_pos (by rw [length_zeroPad (by decide) milli]; decide),
          fun _ => isDigit_of_mem_zeroPad⟩)
      zone := .utc 'Z'
      isMonth := by simpa using isMonth
      isDay := by simpa using isDay
      isSeparator := .inl rfl
      isHour := by simp; omega
      isMinute := by simp; omega
      isSecond := by simp; omega
      isZone := .inl rfl }, ?_, ?_, ?_⟩
  · exact ⟨(by decide : 'T' ≠ 't'), by simp [IsoText.seconds]; omega, rfl⟩
  · simp [epochMsToIso, date, isoChars, ← isRem, padInt, IsoText.chars, DigitText.ofNat,
      IsoText.secondChars, IsoText.fractionChars, Zone.chars]
  · have length : (zeroPad 3 (rem % 1000)).length = 3 := length_zeroPad (by decide) milli
    have millis : (zeroPad 3 (rem % 1000) ++ ['0', '0', '0']).take 3 = zeroPad 3 (rem % 1000) :=
      List.take_left' length
    simp only [IsoText.instant, DigitText.value_ofNat, number, Zone.ahead, IsoText.seconds,
      IsoText.millis, Option.elim_some, FractionText.millis, millis, ofDigitChars_zeroPad]
    omega

/-- **What is printed is read back.** -/
theorem isoToEpochMs_epochMsToIso {ms : Int} (inside : FourDigitYear ms) :
    isoToEpochMs (epochMsToIso ms) = some ms := by
  obtain ⟨t, -, isChars, isInstant⟩ := epochMsToIso_chars inside
  have trimmed : trim (epochMsToIso ms).toList = t.chars := by
    rw [← isChars]
    obtain ⟨y, m, d, date, isYear, -⟩ := civilFromDays_fourDigit inside
    obtain ⟨c, rest, isPadded⟩ := List.exists_cons_of_length_pos
      (by rw [length_zeroPad (by decide) isYear]; decide : 0 < (zeroPad 4 y).length)
    have digit : c.isDigit :=
      isDigit_of_mem_zeroPad (show c ∈ zeroPad 4 y by rw [isPadded]; exact List.mem_cons_self)
    have ends : ∃ mid, (epochMsToIso ms).toList = c :: (mid ++ ['Z']) := by
      rw [epochMsToIso, date, String.toList_ofList, isoChars]
      simp only [padInt, Int.not_lt.mpr (Int.natCast_nonneg y), if_false, Int.toNat_natCast,
        isPadded, List.cons_append, List.cons.injEq, true_and]
      exact ⟨_, by simp only [← List.append_assoc, ← List.cons_append]; rfl⟩
    obtain ⟨mid, isText⟩ := ends
    rw [isText, trim_of_ends (isWhiteSpace_of_isDigit digit) rfl]
  rw [t.isoToEpochMs_reads trimmed, isInstant]

/-! ### Their order -/

theorem isoChars_lt_of_date {y y' m m' d d' : Nat} (isYear : y' < 10000) (isMonth : m' ≤ 12)
    (isDay : d' ≤ 31) (before : y < y' ∨ y = y' ∧ (m < m' ∨ m = m' ∧ d < d')) (rem rem' : Nat) :
    isoChars ((y : Int), m, d) rem < isoChars ((y' : Int), m', d') rem' := by
  have year (n : Nat) : padInt 4 n = zeroPad 4 n := by simp [padInt]
  simp only [isoChars, year]
  rcases before with earlier | ⟨rfl, earlier | ⟨rfl, earlier⟩⟩
  · exact zeroPad_append_lt (by decide) earlier isYear _ _
  · refine List.append_left_lt (List.cons_lt_cons_iff.mpr (.inr ⟨rfl, ?_⟩))
    exact zeroPad_append_lt (by decide) earlier (by omega) _ _
  · refine List.append_left_lt (List.cons_lt_cons_iff.mpr (.inr ⟨rfl, ?_⟩))
    refine List.append_left_lt (List.cons_lt_cons_iff.mpr (.inr ⟨rfl, ?_⟩))
    exact zeroPad_append_lt (by decide) earlier (by omega) _ _

theorem isoChars_lt_of_rem {rem rem' : Nat} (date : Int × Nat × Nat) (before : rem < rem')
    (within : rem' < 86400000) : isoChars date rem < isoChars date rem' := by
  have skip {pre rest rest' : List Char} {c : Char} (less : rest < rest') :
      pre ++ c :: rest < pre ++ c :: rest' :=
    List.append_left_lt (List.cons_lt_cons_iff.mpr (.inr ⟨rfl, less⟩))
  refine skip (skip (skip ?_))
  by_cases hour : rem / 1000 / 3600 < rem' / 1000 / 3600
  · exact zeroPad_append_lt (by decide) hour (by omega) _ _
  have sameHour : rem / 1000 / 3600 = rem' / 1000 / 3600 := by omega
  rw [sameHour]
  refine skip ?_
  by_cases minute : rem / 1000 % 3600 / 60 < rem' / 1000 % 3600 / 60
  · exact zeroPad_append_lt (by decide) minute (by omega) _ _
  have sameMinute : rem / 1000 % 3600 / 60 = rem' / 1000 % 3600 / 60 := by omega
  rw [sameMinute]
  refine skip ?_
  by_cases second : rem / 1000 % 60 < rem' / 1000 % 60
  · exact zeroPad_append_lt (by decide) second (by omega) _ _
  have sameSecond : rem / 1000 % 60 = rem' / 1000 % 60 := by omega
  rw [sameSecond]
  exact skip (zeroPad_append_lt (by decide) (by omega) (by omega) _ _)

/-- **An earlier time is printed as a smaller text.** -/
theorem epochMsToIso_lt {ms later : Int} (inside : FourDigitYear ms) (inside' : FourDigitYear later)
    (before : ms < later) : epochMsToIso ms < epochMsToIso later := by
  obtain ⟨y, m, d, date, isYear, isMonth, isDay, number⟩ := civilFromDays_fourDigit inside
  obtain ⟨y', m', d', date', isYear', isMonth', isDay', number'⟩ := civilFromDays_fourDigit inside'
  rw [String.lt_iff, epochMsToIso, epochMsToIso, String.toList_ofList, String.toList_ofList]
  by_cases sameDay : ms / 86400000 = later / 86400000
  · rw [sameDay]
    exact isoChars_lt_of_rem _ (by omega) (by omega)
  · rw [date, date']
    have short := monthLength_le y' m'
    have dates := date_lt_of_dayNumber_lt isMonth isMonth' isDay isDay' (by omega)
    exact isoChars_lt_of_date isYear' isMonth'.2 (by omega) (by omega) _ _

/-- **Printing and reading** in the years of four digits: the text is a date of the calendar, it is
read back, and the texts are in the order of the times. -/
theorem printed_times (ms : Int) (inside : FourDigitYear ms) :
    (∃ t : IsoText, t.Documented ∧ (epochMsToIso ms).toList = t.chars ∧ t.instant = ms) ∧
    isoToEpochMs (epochMsToIso ms) = some ms ∧
    ∀ later, FourDigitYear later → ms < later → epochMsToIso ms < epochMsToIso later :=
  ⟨epochMsToIso_chars inside, isoToEpochMs_epochMsToIso inside,
    fun _ inside' before => epochMsToIso_lt inside inside' before⟩

theorem printed_times_epoch : isoToEpochMs (epochMsToIso (-1)) = some (-1) ∧
    epochMsToIso (-1) < epochMsToIso 0 :=
  have printed := printed_times (-1) ⟨by decide, by decide⟩
  ⟨printed.2.1, printed.2.2 0 ⟨by decide, by decide⟩ (by decide)⟩

end Toard.Shim
