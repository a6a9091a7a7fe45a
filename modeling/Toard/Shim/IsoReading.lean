/-
**Which texts are read as a time (`iso.rs`).**

The reader of the logs takes fields at fixed places and leaves the digits to the parser of integers.
-/

import Toard.Shim.Iso

namespace Toard.Shim

open Toard.Library

/-! ### Written times -/

abbrev DigitText (width : Nat) := { ds : List Char // ds.length = width ∧ ∀ c ∈ ds, c.isDigit }

def DigitText.value {width : Nat} (ds : DigitText width) : Nat := Nat.ofDigitChars 10 ds.val 0

abbrev FractionText := { ds : List Char // ds ≠ [] ∧ ∀ c ∈ ds, c.isDigit }

def FractionText.millis (ds : FractionText) : Nat :=
  Nat.ofDigitChars 10 ((ds.val ++ ['0', '0', '0']).take 3) 0

inductive Zone where
  | missing
  | utc (letter : Char)
  | offset (sign : Char) (hours : DigitText 2) (minutes : Option (Bool × DigitText 2))

def Zone.chars : Zone → List Char
  | .missing => []
  | .utc letter => [letter]
  | .offset sign hours none => sign :: hours.val
  | .offset sign hours (some (true, minutes)) => sign :: (hours.val ++ ':' :: minutes.val)
  | .offset sign hours (some (false, minutes)) => sign :: (hours.val ++ minutes.val)

def Zone.ahead : Zone → Int
  | .offset sign hours minutes =>
    let whole : Int := hours.value * 60 + (minutes.elim 0 fun m => m.2.value)
    if sign = '-' then -whole else whole
  | _ => 0

def Zone.Real : Zone → Prop
  | .missing => True
  | .utc letter => letter = 'Z' ∨ letter = 'z'
  | .offset sign hours minutes => (sign = '+' ∨ sign = '-') ∧ hours.value ≤ 23 ∧
      ∀ m ∈ minutes, m.2.value ≤ 59

/-- `YYYY-MM-DD[T ]HH:MM[:SS[.frac]][Z|±HH[:MM]]`, also with the letters in lower case and with the
minutes of an offset right behind its hours. A leap second is the first one of the next minute. -/
structure IsoText where
  year : DigitText 4
  month : DigitText 2
  day : DigitText 2
  separator : Char
  hour : DigitText 2
  minute : DigitText 2
  second : Option (DigitText 2 × Option FractionText)
  zone : Zone
  isMonth : 1 ≤ month.value ∧ month.value ≤ 12
  isDay : 1 ≤ day.value ∧ day.value ≤ monthLength year.value month.value
  isSeparator : separator = 'T' ∨ separator = 't' ∨ separator = ' '
  isHour : hour.value ≤ 23
  isMinute : minute.value ≤ 59
  isSecond : ∀ s ∈ second, s.1.value ≤ 60
  isZone : zone.Real

namespace IsoText

def fractionChars : Option FractionText → List Char
  | none => []
  | some fraction => '.' :: fraction.val

def secondChars : Option (DigitText 2 × Option FractionText) → List Char
  | none => []
  | some (second, fraction) => ':' :: (second.val ++ fractionChars fraction)

def chars (t : IsoText) : List Char :=
  t.year.val ++ '-' :: (t.month.val ++ '-' :: (t.day.val ++ t.separator ::
    (t.hour.val ++ ':' :: (t.minute.val ++ (secondChars t.second ++ t.zone.chars)))))

def seconds (t : IsoText) : Nat := t.second.elim 0 fun s => s.1.value

def millis (t : IsoText) : Nat := t.second.elim 0 fun s => s.2.elim 0 FractionText.millis

def instant (t : IsoText) : Int :=
  (((dayNumber t.year.value t.month.value t.day.value * 24 + t.hour.value) * 60 + t.minute.value
    - t.zone.ahead) * 60 + t.seconds) * 1000 + t.millis

end IsoText

/-! ### The fields -/

theorem signPart_of_digit {c : Char} {s : List Char} (digit : c.isDigit) :
    Json.signPart (c :: s) = ([], c :: s) := by
  have plus : c ≠ '+' := by rintro rfl; cases digit
  have minus : c ≠ '-' := by rintro rfl; cases digit
  simp [Json.signPart, plus, minus]

theorem parseI64_digits {s : List Char} (nonempty : s ≠ []) (digits : ∀ c ∈ s, c.isDigit) :
    parseI64 s = some (Nat.ofDigitChars 10 s 0 : Nat) := by
  obtain ⟨c, rest, rfl⟩ := List.exists_cons_of_ne_nil nonempty
  have unsigned := signPart_of_digit (s := rest) (digits c List.mem_cons_self)
  simp only [parseI64, unsigned]
  rw [if_pos ⟨nonempty, List.all_eq_true.mpr digits⟩]
  rfl

def isSign (c : Char) : Bool := c == '+' || c == '-'

theorem digits_of_parseI64 {c : Char} {s : List Char} {n : Int} (unsigned : isSign c = false)
    (parsed : parseI64 (c :: s) = some n) :
    (∀ d ∈ c :: s, d.isDigit) ∧ n = (Nat.ofDigitChars 10 (c :: s) 0 : Nat) := by
  have plus : c ≠ '+' := by rintro rfl; cases unsigned
  have minus : c ≠ '-' := by rintro rfl; cases unsigned
  have none : Json.signPart (c :: s) = ([], c :: s) := by simp [Json.signPart, plus, minus]
  simp only [parseI64, none] at parsed
  split at parsed
  · next digits => exact ⟨List.all_eq_true.mp digits.2, (Option.some.inj parsed).symm⟩
  · cases parsed

theorem num_append (front s : List Char) (first last : Nat) :
    num (front ++ s) (front.length + first) (front.length + last) = num s first last := by
  simp only [num, List.length_append, Nat.add_le_add_iff_left, List.take_append, List.drop_append]
  congr 2
  simp

theorem getElem?_append_length (front s : List Char) (i : Nat) :
    (front ++ s)[front.length + i]? = s[i]? := by
  rw [List.getElem?_append_right (by omega), Nat.add_sub_cancel_left]

theorem isoMillis_append (front s : List Char) :
    isoMillis (front ++ s) front.length
      = (isoMillis s 0).map fun read => (read.1, front.length + read.2) := by
  have dot := getElem?_append_length front s 0
  have rest : (front ++ s).drop (front.length + 1) = s.drop 1 := by simp [List.drop_append]
  simp only [Nat.add_zero] at dot
  simp only [isoMillis, dot, rest, Nat.zero_add]
  split
  · split
    · rfl
    · simp only [Option.map_some, Nat.add_assoc]
  · rfl

theorem isoOffset_append (front s : List Char) :
    isoOffset (front ++ s) front.length = isoOffset s 0 := by
  have sign := getElem?_append_length front s 0
  have third := getElem?_append_length front s 3
  have hours := num_append front s 1 3
  have colon := num_append front s 4 6
  have close := num_append front s 3 5
  have ends : front.length + 1 = (front ++ s).length ↔ 0 + 1 = s.length := by
    rw [List.length_append]
    omega
  simp only [Nat.add_zero] at sign
  simp only [isoOffset, sign, third, hours, colon, close, ends, Nat.zero_add]

/-- **What the reader asks for.** -/
theorem isoToEpochMs_eq_some {text : String} {s : List Char} (trimmed : trim text.toList = s)
    {ms : Int} : isoToEpochMs text = some ms ↔ 16 ≤ s.length ∧
      ∃ year, num s 0 4 = some year ∧ (s[4]? = some '-' ∧ s[7]? = some '-') ∧
      ∃ month, num s 5 7 = some month ∧ ∃ day, num s 8 10 = some day ∧
      (s[10]? = some 'T' ∨ s[10]? = some 't' ∨ s[10]? = some ' ') ∧
      ∃ hour, num s 11 13 = some hour ∧ s[13]? = some ':' ∧
      ∃ minute, num s 14 16 = some minute ∧
      ((1 ≤ month ∧ month ≤ 12) ∧ (1 ≤ day ∧ day ≤ 31) ∧ hour ≤ 23 ∧ minute ≤ 59) ∧
      ∃ second, (if s[16]? = some ':' then num s 17 19 else some 0) = some second ∧ second ≤ 60 ∧
      ∃ milli pos, isoMillis s (if s[16]? = some ':' then 19 else 16) = some (milli, pos) ∧
      ∃ offset, isoOffset s pos = some offset ∧
        (((daysFromCivil year month.toNat day.toNat * 24 + hour) * 60 + minute - offset) * 60
          + second) * 1000 + milli = ms := by
  subst trimmed
  by_cases seconds : (trim text.toList)[16]? = some ':' <;>
    simp only [isoToEpochMs, seconds, if_true, if_false, Option.bind_eq_bind, not_lt, not_or,
      Option.ite_none_left_eq_some, Option.bind_eq_some_iff, ne_eq, not_not, not_and_or,
      Prod.exists, Option.some.injEq, and_assoc, gt_iff_lt]

/-! ### Every written time is read -/

theorem num_digits {s : List Char} {width first last : Nat} (ds : DigitText width)
    (front back : List Char) (split : s = front ++ (ds.val ++ back)) (before : front.length = first)
    (until_ : first + width = last) (positive : 0 < width) :
    num s first last = some (ds.value : Int) := by
  obtain ⟨chars, length, digits⟩ := ds
  have nonempty : chars ≠ [] := by
    rintro rfl
    simp only [List.length_nil] at length
    omega
  subst before until_ split
  have whole : (front ++ (chars ++ back)).take (front.length + width) = front ++ chars := by
    rw [← length, ← List.append_assoc, ← List.length_append, List.take_left]
  rw [num, whole, List.drop_left, parseI64_digits nonempty digits, if_pos]
  · rfl
  · simp only [List.length_append]
    omega

theorem getElem?_split {s : List Char} {i : Nat} (front : List Char) (c : Char) (back : List Char)
    (split : s = front ++ c :: back) (before : front.length = i) : s[i]? = some c := by
  rw [split, ← before, List.getElem?_append_right (by omega), Nat.sub_self, List.getElem?_cons_zero]

theorem Zone.head_of_real {zone : Zone} (real : zone.Real) {c : Char} {rest : List Char}
    (isHead : zone.chars = c :: rest) : c ≠ ':' ∧ c ≠ '.' ∧ c.isDigit = false := by
  cases zone with
  | missing => cases isHead
  | utc letter =>
    obtain ⟨rfl, -⟩ : letter = c ∧ _ := List.cons.inj isHead
    rcases real with rfl | rfl <;> decide
  | offset sign hours minutes =>
    have same : sign = c := by
      rcases minutes with _ | ⟨_ | _, minutes⟩ <;> exact (List.cons.inj isHead).1
    subst same
    rcases real.1 with rfl | rfl <;> decide

theorem FractionText.millis_eq (ds : FractionText) :
    Nat.ofDigitChars 10 (ds.val.take 3) 0 * 10 ^ (3 - (ds.val.take 3).length) = ds.millis := by
  have zeros : (['0', '0', '0'] : List Char) = List.replicate 3 '0' := rfl
  rw [millis, List.take_append, Nat.ofDigitChars_append, zeros, List.take_replicate,
    Nat.ofDigitChars_replicate_zero]
  have left : min (3 - ds.val.length) 3 = 3 - (ds.val.take 3).length := by
    rw [List.length_take]
    omega
  rw [left, Nat.mul_comm]

theorem takeWhile_digits {ds rest : List Char} (digits : ∀ c ∈ ds, c.isDigit)
    (stops : ∀ c tail, rest = c :: tail → c.isDigit = false) :
    (ds ++ rest).takeWhile Char.isDigit = ds := by
  rw [List.takeWhile_append_of_pos digits]
  cases rest with
  | nil => simp
  | cons c tail => rw [List.takeWhile_cons_of_neg (by simp [stops c tail rfl]), List.append_nil]

theorem isoMillis_fraction (fraction : Option FractionText) {rest : List Char}
    (stops : ∀ c tail, rest = c :: tail → c ≠ '.' ∧ c.isDigit = false) :
    isoMillis (IsoText.fractionChars fraction ++ rest) 0
      = some (((fraction.elim 0 FractionText.millis : Nat) : Int),
          (IsoText.fractionChars fraction).length) := by
  cases fraction with
  | none =>
    have other : rest[0]? ≠ some '.' := by
      cases rest with
      | nil => simp
      | cons c tail => simpa using (stops c tail rfl).1
    simp [isoMillis, IsoText.fractionChars, other]
  | some fraction =>
    have run := takeWhile_digits fraction.2.2 fun c tail isRest => (stops c tail isRest).2
    have dot : ('.' :: (fraction.val ++ rest))[0]? = some '.' := rfl
    simp only [isoMillis, IsoText.fractionChars, List.cons_append, dot, if_true, Nat.zero_add,
      List.drop_succ_cons, List.drop_zero, run, if_neg fraction.2.1, Option.elim_some,
      List.length_cons, Option.some.injEq, Prod.mk.injEq]
    refine ⟨?_, Nat.add_comm _ _⟩
    exact_mod_cast fraction.millis_eq

def offsetMinutes (s : List Char) : Option Int :=
  if s[3]? = some ':' then num s 4 6 else if s[3]? = none then some 0 else num s 3 5

theorem isoOffset_signed {sign : Char} (isSign : sign = '+' ∨ sign = '-') (s : List Char) :
    isoOffset (sign :: s) 0 = (num (sign :: s) 1 3).bind fun hours =>
      (offsetMinutes (sign :: s)).bind fun minutes =>
        if hours > 23 ∨ minutes > 59 then none
        else some (if sign = '-' then -(hours * 60 + minutes) else hours * 60 + minutes) := by
  have letter : sign ≠ 'Z' ∧ sign ≠ 'z' := by rcases isSign with rfl | rfl <;> decide
  have head : (sign :: s)[0]? = some sign := rfl
  simp only [isoOffset, head, letter.1, letter.2, or_self, false_and, if_false, if_pos isSign,
    Nat.zero_add, offsetMinutes, Option.bind_eq_bind]
  congr 1
  funext hours
  split
  · next colon => rw [colon, if_pos rfl]
  · next ends => rw [ends, if_neg (by simp), if_pos rfl]
  · next c other isThird =>
    rw [isThird, if_neg fun colon => other (Option.some.inj colon), if_neg (by simp)]

theorem DigitText.two (ds : DigitText 2) : ∃ a b, ds.val = [a, b] ∧ a.isDigit ∧ b.isDigit := by
  obtain ⟨chars, length, digits⟩ := ds
  obtain ⟨a, b, rfl⟩ := List.length_eq_two.mp length
  exact ⟨a, b, rfl, digits a (by simp), digits b (by simp)⟩

theorem offsetMinutes_chars (sign : Char) (hours : DigitText 2)
    (minutes : Option (Bool × DigitText 2)) :
    offsetMinutes (Zone.offset sign hours minutes).chars
      = some ((minutes.elim 0 fun m => m.2.value : Nat) : Int) := by
  obtain ⟨a, b, isHours, -, -⟩ := hours.two
  rcases minutes with _ | ⟨_ | _, minutes⟩
  · simp [offsetMinutes, Zone.chars, isHours]
  · obtain ⟨c, d, isMinutes, digit, -⟩ := minutes.two
    have third : (Zone.offset sign hours (some (false, minutes))).chars[3]? = some c := by
      simp [Zone.chars, isHours, isMinutes]
    have other : c ≠ ':' := by rintro rfl; cases digit
    rw [offsetMinutes, third, if_neg fun colon => other (Option.some.inj colon), if_neg (by simp)]
    exact num_digits minutes [sign, a, b] [] (by simp [Zone.chars, isHours]) rfl rfl (by decide)
  · have third : (Zone.offset sign hours (some (true, minutes))).chars[3]? = some ':' := by
      simp [Zone.chars, isHours]
    rw [offsetMinutes, third, if_pos rfl]
    exact num_digits minutes [sign, a, b, ':'] [] (by simp [Zone.chars, isHours]) rfl rfl (by decide)

theorem isoOffset_chars {zone : Zone} (real : zone.Real) :
    isoOffset zone.chars 0 = some zone.ahead := by
  cases zone with
  | missing => rfl
  | utc letter => rcases real with rfl | rfl <;> rfl
  | offset sign hours minutes =>
    obtain ⟨signed, isHours, isMinutes⟩ := real
    obtain ⟨rest, isRest⟩ : ∃ rest, (Zone.offset sign hours minutes).chars = sign :: rest := by
      rcases minutes with _ | ⟨_ | _, minutes⟩ <;> exact ⟨_, rfl⟩
    have hoursRead : num (sign :: rest) 1 3 = some (hours.value : Int) := by
      rw [← isRest]
      rcases minutes with _ | ⟨_ | _, minutes⟩
      · exact num_digits hours [sign] [] (by simp [Zone.chars]) rfl rfl (by decide)
      · exact num_digits hours [sign] minutes.val (by simp [Zone.chars]) rfl rfl (by decide)
      · exact num_digits hours [sign] (':' :: minutes.val) (by simp [Zone.chars]) rfl rfl
          (by decide)
    have minutesRead := offsetMinutes_chars sign hours minutes
    rw [isRest] at minutesRead ⊢
    have short : minutes.elim 0 (fun m => m.2.value) ≤ 59 := by
      cases minutes with
      | none => exact Nat.zero_le _
      | some m => exact isMinutes m rfl
    rw [isoOffset_signed signed, hoursRead, Option.bind_some, minutesRead, Option.bind_some,
      if_neg (by omega)]
    simp only [Zone.ahead]

namespace IsoText

def front (t : IsoText) : List Char :=
  t.year.val ++ '-' :: (t.month.val ++ '-' :: (t.day.val ++ t.separator ::
    (t.hour.val ++ ':' :: t.minute.val)))

theorem chars_eq (t : IsoText) : t.chars = t.front ++ (secondChars t.second ++ t.zone.chars) := by
  simp [chars, front]

theorem length_front (t : IsoText) : t.front.length = 16 := by
  simp [front, t.year.2.1, t.month.2.1, t.day.2.1, t.hour.2.1, t.minute.2.1]

theorem zone_stops (t : IsoText) (c : Char) (rest : List Char) (isHead : t.zone.chars = c :: rest) :
    c ≠ '.' ∧ c.isDigit = false :=
  (Zone.head_of_real t.isZone isHead).2

theorem seconds_read (t : IsoText) :
    (if t.chars[16]? = some ':' then num t.chars 17 19 else some 0) = some (t.seconds : Int) ∧
    isoMillis t.chars (if t.chars[16]? = some ':' then 19 else 16)
      = some ((t.millis : Int), (t.front ++ secondChars t.second).length) := by
  have front := t.length_front
  have behind (i : Nat) :=
    getElem?_append_length t.front (secondChars t.second ++ t.zone.chars) i
  rw [front, ← chars_eq] at behind
  cases isSecond : t.second with
  | none =>
    have other : t.chars[16]? ≠ some ':' := by
      rw [show t.chars[16]? = _ from behind 0, isSecond]
      cases isZone : t.zone.chars with
      | nil => simp [secondChars]
      | cons c rest => simpa [secondChars] using (Zone.head_of_real t.isZone isZone).1
    have millis := isoMillis_append t.front (secondChars t.second ++ t.zone.chars)
    rw [← chars_eq, front, isSecond, secondChars, List.nil_append] at millis
    have read := isoMillis_fraction none t.zone_stops
    rw [fractionChars, List.nil_append] at read
    rw [if_neg other, if_neg other, millis, read]
    simp [seconds, IsoText.millis, isSecond, secondChars, front]
  | some written =>
    have colon : t.chars[16]? = some ':' := by
      rw [show t.chars[16]? = _ from behind 0, isSecond]
      rfl
    have split : t.chars
        = (t.front ++ ':' :: written.1.val) ++ (fractionChars written.2 ++ t.zone.chars) := by
      simp [chars_eq, isSecond, secondChars]
    have length : (t.front ++ ':' :: written.1.val).length = 19 := by simp [front, written.1.2.1]
    have second : num t.chars 17 19 = some (written.1.value : Int) :=
      num_digits written.1 (t.front ++ [':']) (fractionChars written.2 ++ t.zone.chars)
        (by rw [split]; simp) (by simp [front]) rfl (by decide)
    have millis := isoMillis_append (t.front ++ ':' :: written.1.val)
      (fractionChars written.2 ++ t.zone.chars)
    rw [← split, length,
      isoMillis_fraction written.2 t.zone_stops] at millis
    rw [if_pos colon, if_pos colon, second, millis]
    simp [seconds, IsoText.millis, isSecond, secondChars, front, written.1.2.1]
    omega

/-- **Every written time is read.** -/
theorem isoToEpochMs_reads (t : IsoText) {text : String} (trimmed : trim text.toList = t.chars) :
    isoToEpochMs text = some t.instant := by
  have y := t.year.2.1
  have mo := t.month.2.1
  have d := t.day.2.1
  have h := t.hour.2.1
  have mi := t.minute.2.1
  obtain ⟨tail, isTail⟩ : ∃ tail, tail = secondChars t.second ++ t.zone.chars := ⟨_, rfl⟩
  have whole : t.chars = t.year.val ++ '-' :: (t.month.val ++ '-' :: (t.day.val ++ t.separator ::
      (t.hour.val ++ ':' :: (t.minute.val ++ tail)))) := by rw [isTail, chars]
  have long : 16 ≤ t.chars.length := by
    rw [chars_eq, List.length_append, length_front]
    omega
  have year : num t.chars 0 4 = some (t.year.value : Int) :=
    num_digits t.year [] _ whole rfl rfl (by decide)
  have month : num t.chars 5 7 = some (t.month.value : Int) :=
    num_digits t.month (t.year.val ++ ['-']) _ (by rw [whole]; simp; rfl) (by simp [y]) rfl
      (by decide)
  have day : num t.chars 8 10 = some (t.day.value : Int) :=
    num_digits t.day (t.year.val ++ '-' :: (t.month.val ++ ['-'])) _ (by rw [whole]; simp; rfl)
      (by simp [y, mo]) rfl (by decide)
  have hour : num t.chars 11 13 = some (t.hour.value : Int) :=
    num_digits t.hour (t.year.val ++ '-' :: (t.month.val ++ '-' :: (t.day.val ++ [t.separator]))) _
      (by rw [whole]; simp; rfl) (by simp [y, mo, d]) rfl (by decide)
  have minute : num t.chars 14 16 = some (t.minute.value : Int) :=
    num_digits t.minute (t.year.val ++ '-' :: (t.month.val ++ '-' :: (t.day.val ++ t.separator ::
      (t.hour.val ++ [':'])))) tail (by rw [whole]; simp) (by simp [y, mo, d, h]) rfl (by decide)
  have firstDash : t.chars[4]? = some '-' := getElem?_split t.year.val '-' _ whole y
  have lastDash : t.chars[7]? = some '-' :=
    getElem?_split (t.year.val ++ '-' :: t.month.val) '-' _ (by rw [whole]; simp; rfl)
      (by simp [y, mo])
  have separator : t.chars[10]? = some t.separator :=
    getElem?_split (t.year.val ++ '-' :: (t.month.val ++ '-' :: t.day.val)) _ _
      (by rw [whole]; simp; rfl) (by simp [y, mo, d])
  have colon : t.chars[13]? = some ':' :=
    getElem?_split (t.year.val ++ '-' :: (t.month.val ++ '-' :: (t.day.val ++ t.separator ::
      t.hour.val))) ':' _ (by rw [whole]; simp; rfl) (by simp [y, mo, d, h])
  obtain ⟨seconds, millis⟩ := t.seconds_read
  have zone : isoOffset t.chars (t.front ++ secondChars t.second).length = some t.zone.ahead := by
    rw [t.chars_eq, ← List.append_assoc, isoOffset_append]
    exact isoOffset_chars t.isZone
  have days : daysFromCivil t.year.value (t.month.value : Int).toNat (t.day.value : Int).toNat
      = dayNumber t.year.value t.month.value t.day.value := daysFromCivil_eq _ _ t.isMonth
  have short := monthLength_le t.year.value t.month.value
  have leap : t.seconds ≤ 60 := by
    cases isSecond : t.second with
    | none => simp [IsoText.seconds, isSecond]
    | some s => simpa [IsoText.seconds, isSecond] using t.isSecond s isSecond
  have isMonth := t.isMonth
  have isDay := t.isDay
  have isHour := t.isHour
  have isMinute := t.isMinute
  refine (isoToEpochMs_eq_some trimmed).mpr ⟨long, _, year, ⟨firstDash, lastDash⟩, _, month, _, day,
    ?_, _, hour, colon, _, minute, ?_, _, seconds, ?_, _, _, millis, _, zone, ?_⟩
  · rw [separator]
    simpa using t.isSeparator
  · omega
  · omega
  · rw [days]
    rfl

end IsoText

/-! ### What else is read -/

def offsetText (s : List Char) : List Char := (s.drop 16).dropWhile fun c => !(isSign c)

inductive Loose (s : List Char) : Prop where
  /-- A field with a sign of its own. -/
  | signed (i : Nat) (c : Char) (isField : i ∈ [0, 5, 8, 11, 14, 17]) (here : s[i]? = some c)
      (sign : isSign c)
  /-- A fraction of a minute. -/
  | fraction (dot : s[16]? = some '.')
  /-- A day past the end of its month. -/
  | day (year month day : Int) (isYear : num s 0 4 = some year) (isMonth : num s 5 7 = some month)
      (isDay : num s 8 10 = some day) (past : monthLength year month.toNat < day)
  /-- A number of an offset with a sign of its own. -/
  | signedOffset (sign : (offsetText s).tail.any isSign)
  /-- Text behind an offset. -/
  | trailing (long : (if (offsetText s)[3]? = some ':' then 6 else 5) < (offsetText s).length)

theorem drop_of_getElem? {s : List Char} {i : Nat} {c : Char} (here : s[i]? = some c) :
    s.drop i = c :: s.drop (i + 1) := by
  obtain ⟨within, rfl⟩ := List.getElem?_eq_some_iff.mp here
  exact List.drop_eq_getElem_cons within

theorem digitText_of_num {s : List Char} {first width : Nat} {n : Int}
    (read : num s first (first + width) = some n) (positive : 0 < width)
    (unsigned : ∀ c, s[first]? = some c → isSign c = false) :
    ∃ ds : DigitText width, n = ds.value ∧ s.drop first = ds.val ++ s.drop (first + width) ∧
      first + width ≤ s.length := by
  obtain ⟨within, parsed⟩ := Option.ite_none_right_eq_some.mp read
  rw [List.drop_take, Nat.add_sub_cancel_left] at parsed
  have cut : s.drop first = (s.drop first).take width ++ s.drop (first + width) := by
    rw [← List.drop_drop, List.take_append_drop]
  have length : ((s.drop first).take width).length = width := by
    rw [List.length_take, List.length_drop]
    omega
  obtain ⟨c, rest, isText⟩ : ∃ c rest, (s.drop first).take width = c :: rest :=
    List.exists_cons_of_length_pos (by omega)
  have here : s[first]? = some c := by
    have head : (s.drop first)[0]? = some c := by rw [cut, isText]; rfl
    simpa using head
  rw [isText] at parsed cut length
  obtain ⟨digits, value⟩ := digits_of_parseI64 (unsigned c here) parsed
  exact ⟨⟨c :: rest, length, digits⟩, value, cut, within⟩

theorem fraction_of_isoMillis {s : List Char} {first last : Nat} {milli : Int}
    (read : isoMillis s first = some (milli, last)) (within : first ≤ s.length) :
    ∃ fraction : Option FractionText, s.drop first = IsoText.fractionChars fraction ++ s.drop last ∧
      milli = ((fraction.elim 0 FractionText.millis : Nat) : Int) ∧ last ≤ s.length ∧
      (s[first]? ≠ some '.' → fraction = none) := by
  simp only [isoMillis] at read
  split at read
  case isTrue dot =>
    obtain ⟨digits, isDigits⟩ : ∃ ds, ds = (s.drop (first + 1)).takeWhile Char.isDigit := ⟨_, rfl⟩
    rw [← isDigits] at read
    obtain ⟨nonempty, isRead⟩ := Option.ite_none_left_eq_some.mp read
    obtain ⟨isMilli, isLast⟩ := Prod.mk.inj (Option.some.inj isRead)
    have all : ∀ c ∈ digits, c.isDigit := fun c among =>
      List.mem_takeWhile_imp (isDigits ▸ among)
    obtain ⟨tail, cut⟩ : ∃ tail, s.drop (first + 1) = digits ++ tail :=
      ⟨_, by rw [isDigits]; exact List.takeWhile_append_dropWhile.symm⟩
    have rest : s.drop last = tail := by rw [← isLast, ← List.drop_drop, cut, List.drop_left]
    refine ⟨some ⟨digits, nonempty, all⟩, ?_, ?_, ?_, fun other => absurd dot other⟩
    · rw [drop_of_getElem? dot, cut, rest]
      rfl
    · rw [← isMilli, Option.elim_some, ← FractionText.millis_eq]
      push_cast
      rfl
    · have lengths := congrArg List.length cut
      rw [List.length_drop, List.length_append] at lengths
      have one : first < s.length := (List.getElem?_eq_some_iff.mp dot).1
      omega
  case isFalse other =>
    obtain ⟨rfl, rfl⟩ := Prod.mk.inj (Option.some.inj read)
    exact ⟨none, rfl, rfl, within, fun _ => rfl⟩

theorem zone_of_isoOffset {s : List Char} {offset : Int} (read : isoOffset s 0 = some offset)
    (strict : ∀ sign rest, s = sign :: rest → isSign sign → rest.any isSign = false ∧
      s.length ≤ if s[3]? = some ':' then 6 else 5) :
    ∃ zone : Zone, zone.Real ∧ zone.chars = s ∧ zone.ahead = offset := by
  cases s with
  | nil => exact ⟨.missing, trivial, rfl, Option.some.inj read⟩
  | cons c rest =>
    by_cases sign : c = '+' ∨ c = '-'
    · obtain ⟨unsigned, short⟩ := strict c rest rfl (by rcases sign with rfl | rfl <;> rfl)
      rw [isoOffset_signed sign] at read
      obtain ⟨hours, isHours, read⟩ := Option.bind_eq_some_iff.mp read
      obtain ⟨minutes, isMinutes, read⟩ := Option.bind_eq_some_iff.mp read
      obtain ⟨bounds, isOffset⟩ := Option.ite_none_left_eq_some.mp read
      have plain : ∀ i d, (c :: rest)[i + 1]? = some d → isSign d = false := by
        intro i d here
        have among : d ∈ rest := List.mem_of_getElem? (by simpa using here)
        simpa using List.any_eq_false.mp unsigned d among
      obtain ⟨h, rfl, afterHours, -⟩ :=
        digitText_of_num (show num (c :: rest) 1 (1 + 2) = some hours from isHours) (by decide)
          (plain 0)
      rw [List.drop_succ_cons, List.drop_zero] at afterHours
      rw [offsetMinutes] at isMinutes
      by_cases colon : (c :: rest)[3]? = some ':'
      · rw [if_pos colon] at isMinutes short
        obtain ⟨m, rfl, afterMinutes, -⟩ :=
          digitText_of_num (show num (c :: rest) 4 (4 + 2) = some minutes from isMinutes)
            (by decide) (plain 3)
        have ends : (c :: rest).drop (4 + 2) = [] := List.drop_eq_nil_of_le short
        refine ⟨.offset c h (some (true, m)), ⟨sign, by omega, ?_⟩, ?_, ?_⟩
        · rintro _ ⟨⟩
          exact_mod_cast not_lt.mp fun past => bounds (.inr past)
        · rw [Zone.chars, afterHours, drop_of_getElem? colon, afterMinutes, ends, List.append_nil]
        · simpa [Zone.ahead] using isOffset
      · rw [if_neg colon] at isMinutes short
        by_cases last : (c :: rest)[3]? = none
        · rw [if_pos last] at isMinutes
          have ends : (c :: rest).drop (1 + 2) = [] :=
            List.drop_eq_nil_of_le (List.getElem?_eq_none_iff.mp last)
          refine ⟨.offset c h none, ⟨sign, by omega, by simp⟩, ?_, ?_⟩
          · rw [Zone.chars, afterHours, ends, List.append_nil]
          · obtain rfl := Option.some.inj isMinutes
            simpa [Zone.ahead] using isOffset
        · rw [if_neg last] at isMinutes
          obtain ⟨m, rfl, afterMinutes, -⟩ :=
            digitText_of_num (show num (c :: rest) 3 (3 + 2) = some minutes from isMinutes)
              (by decide) (plain 2)
          have ends : (c :: rest).drop (3 + 2) = [] := List.drop_eq_nil_of_le short
          refine ⟨.offset c h (some (false, m)), ⟨sign, by omega, ?_⟩, ?_, ?_⟩
          · rintro _ ⟨⟩
            exact_mod_cast not_lt.mp fun past => bounds (.inr past)
          · rw [Zone.chars, afterHours, afterMinutes, ends, List.append_nil]
          · simpa [Zone.ahead] using isOffset
    · have letter : (c = 'Z' ∨ c = 'z') ∧ rest = [] := by
        by_contra other
        have head : (c :: rest)[0]? = some c := rfl
        have same : (0 + 1 = (c :: rest).length) ↔ rest = [] := by
          rw [List.length_cons, ← List.length_eq_zero_iff]
          omega
        simp only [isoOffset, head, same, if_neg other, if_neg sign] at read
        cases read
      obtain ⟨isLetter, rfl⟩ := letter
      refine ⟨.utc c, isLetter, rfl, ?_⟩
      rcases isLetter with rfl | rfl <;> exact Option.some.inj read

theorem secondChars_unsigned (written : Option (DigitText 2 × Option FractionText)) :
    ∀ c ∈ IsoText.secondChars written, isSign c = false := by
  have digit : ∀ c : Char, c.isDigit → isSign c = false := by
    intro c isDigit
    have plus : c ≠ '+' := by rintro rfl; cases isDigit
    have minus : c ≠ '-' := by rintro rfl; cases isDigit
    simp [isSign, plus, minus]
  intro c among
  cases written with
  | none => cases among
  | some written =>
    obtain ⟨second, fraction⟩ := written
    simp only [IsoText.secondChars, List.mem_cons, List.mem_append] at among
    rcases among with rfl | among | among
    · rfl
    · exact digit c (second.2.2 c among)
    · cases fraction with
      | none => cases among
      | some fraction =>
        simp only [IsoText.fractionChars, List.mem_cons] at among
        rcases among with rfl | among
        · rfl
        · exact digit c (fraction.2.2 c among)

theorem seconds_of_read {s : List Char} {second milli : Int} {pos : Nat} (long : 16 ≤ s.length)
    (strict : ¬ Loose s)
    (isSecond : (if s[16]? = some ':' then num s 17 19 else some 0) = some second)
    (isMilli : isoMillis s (if s[16]? = some ':' then 19 else 16) = some (milli, pos)) :
    ∃ written : Option (DigitText 2 × Option FractionText),
      s.drop 16 = IsoText.secondChars written ++ s.drop pos ∧ pos ≤ s.length ∧
      second = ((written.elim 0 fun w => w.1.value : Nat) : Int) ∧
      milli = ((written.elim 0 fun w => w.2.elim 0 FractionText.millis : Nat) : Int) := by
  by_cases colon : s[16]? = some ':'
  · rw [if_pos colon] at isSecond isMilli
    obtain ⟨digits, rfl, cut, within⟩ :=
      digitText_of_num (show num s 17 (17 + 2) = some second from isSecond) (by decide) fun c here =>
        Bool.eq_false_iff.mpr fun sign => strict (.signed 17 c (by simp) here sign)
    obtain ⟨fraction, rest, rfl, last, -⟩ := fraction_of_isoMillis isMilli within
    refine ⟨some (digits, fraction), ?_, last, rfl, rfl⟩
    rw [drop_of_getElem? colon, cut, rest, IsoText.secondChars, List.cons_append, List.append_assoc]
  · rw [if_neg colon] at isSecond isMilli
    obtain ⟨fraction, rest, rfl, last, none⟩ := fraction_of_isoMillis isMilli long
    obtain rfl := none fun dot => strict (.fraction dot)
    exact ⟨.none, rest, last, (Option.some.inj isSecond).symm, rfl⟩

/-- **Apart from the loose texts, only written times are read.** -/
theorem isoText_of_read {text : String} {ms : Int} (read : isoToEpochMs text = some ms)
    (strict : ¬ Loose (trim text.toList)) :
    ∃ t : IsoText, t.chars = trim text.toList ∧ t.instant = ms := by
  obtain ⟨long, year, isYear, ⟨firstDash, lastDash⟩, month, isMonth, day, isDay, separator, hour,
    isHour, colon, minute, isMinute, ⟨months, days, hours, minutes⟩, second, isSecond, leap, milli,
    pos, isMilli, offset, isOffset, isInstant⟩ := (isoToEpochMs_eq_some rfl).mp read
  generalize trim text.toList = s at *
  have unsigned : ∀ i ∈ [0, 5, 8, 11, 14, 17], ∀ c, s[i]? = some c → isSign c = false :=
    fun i field c here => Bool.eq_false_iff.mpr fun sign => strict (.signed i c field here sign)
  obtain ⟨y, rfl, afterYear, -⟩ :=
    digitText_of_num (show num s 0 (0 + 4) = some year from isYear) (by decide)
      (unsigned 0 (by simp))
  obtain ⟨mo, rfl, afterMonth, -⟩ :=
    digitText_of_num (show num s 5 (5 + 2) = some month from isMonth) (by decide)
      (unsigned 5 (by simp))
  obtain ⟨d, rfl, afterDay, -⟩ :=
    digitText_of_num (show num s 8 (8 + 2) = some day from isDay) (by decide)
      (unsigned 8 (by simp))
  obtain ⟨h, rfl, afterHour, -⟩ :=
    digitText_of_num (show num s 11 (11 + 2) = some hour from isHour) (by decide)
      (unsigned 11 (by simp))
  obtain ⟨mi, rfl, afterMinute, -⟩ :=
    digitText_of_num (show num s 14 (14 + 2) = some minute from isMinute) (by decide)
      (unsigned 14 (by simp))
  obtain ⟨written, afterSecond, within, rfl, rfl⟩ := seconds_of_read long strict isSecond isMilli
  have within' : (s.take pos).length = pos := List.length_take_of_le within
  have isZone : isoOffset (s.drop pos) 0 = some offset := by
    rw [← isoOffset_append (s.take pos), List.take_append_drop, within', isOffset]
  obtain ⟨zone, real, isChars, rfl⟩ := zone_of_isoOffset isZone (by
    intro sign rest isRest isSigned
    have text : offsetText s = sign :: rest := by
      rw [offsetText, afterSecond, isRest, List.dropWhile_append_of_pos, List.dropWhile_cons_of_neg]
      · simpa using isSigned
      · intro c among
        simpa using secondChars_unsigned written c among
    refine ⟨Bool.eq_false_iff.mpr fun sign => strict (.signedOffset (by rwa [text])), ?_⟩
    rw [isRest, ← text]
    exact not_lt.mp fun long => strict (.trailing long))
  obtain ⟨sep, isSep, sepCases⟩ : ∃ sep, s[10]? = some sep ∧ (sep = 'T' ∨ sep = 't' ∨ sep = ' ') := by
    rcases separator with here | here | here
    · exact ⟨_, here, by simp⟩
    · exact ⟨_, here, by simp⟩
    · exact ⟨_, here, by simp⟩
  have inMonth : d.value ≤ monthLength y.value mo.value := by
    by_contra past
    exact strict (.day y.value mo.value d.value isYear isMonth isDay (by simpa using past))
  have inMinute : ∀ w ∈ written, w.1.value ≤ 60 := by
    rintro w ⟨⟩
    exact_mod_cast leap
  have isText : y.val ++ '-' :: (mo.val ++ '-' :: (d.val ++ sep :: (h.val ++ ':' ::
      (mi.val ++ (IsoText.secondChars written ++ zone.chars))))) = s := by
    rw [isChars, ← afterSecond]
    calc
      _ = y.val ++ s.drop 4 := by
        rw [drop_of_getElem? firstDash, afterMonth, drop_of_getElem? lastDash, afterDay,
          drop_of_getElem? isSep, afterHour, drop_of_getElem? colon, afterMinute]
      _ = s := afterYear.symm
  refine ⟨⟨y, mo, d, sep, h, mi, written, zone, ⟨by omega, by omega⟩, ⟨by omega, inMonth⟩, sepCases,
    by omega, by omega, inMinute, real⟩, isText, ?_⟩
  have days : daysFromCivil y.value (mo.value : Int).toNat (d.value : Int).toNat
      = dayNumber y.value mo.value d.value := daysFromCivil_eq _ _ (by omega)
  rw [← isInstant, days]
  rfl

/-! ### Which texts are times -/

/-- The form in the words of the reader's comment, and a time of the day. -/
def IsoText.Documented (t : IsoText) : Prop :=
  t.separator ≠ 't' ∧ t.seconds ≤ 59 ∧
    match t.zone with
    | .utc letter => letter = 'Z'
    | .offset _ _ (some (colon, _)) => colon = true
    | _ => True

/-- **A text is read as a time just when it is one**, where the reader is not loose: every written
time is read as its instant, and only a loose text is read without being one. -/
theorem times_read (text : String) :
    (∀ t : IsoText, trim text.toList = t.chars → isoToEpochMs text = some t.instant) ∧
    ∀ ms, isoToEpochMs text = some ms →
      (∃ t : IsoText, trim text.toList = t.chars ∧ t.instant = ms) ∨ Loose (trim text.toList) := by
  refine ⟨fun t trimmed => t.isoToEpochMs_reads trimmed, fun ms read => ?_⟩
  by_cases loose : Loose (trim text.toList)
  · exact .inr loose
  · obtain ⟨t, isChars, isInstant⟩ := isoText_of_read read loose
    exact .inl ⟨t, isChars.symm, isInstant⟩

/-- White space around a time is no part of its form, and neither are letters in lower case. -/
theorem blank_before_read :
    isoToEpochMs " 2026-07-01t21:00z" = some 1782939600000 ∧
      ¬ ∃ t : IsoText, t.Documented ∧ t.chars = (" 2026-07-01t21:00z" : String).toList := by
  refine ⟨by decide, ?_⟩
  rintro ⟨t, -, isChars⟩
  obtain ⟨c, rest, isYear⟩ :=
    List.exists_cons_of_length_pos (by rw [t.year.2.1]; decide : 0 < t.year.val.length)
  rw [IsoText.chars, isYear] at isChars
  have head : c = ' ' := (List.cons.inj isChars).1
  have digit := t.year.2.2 c (by rw [isYear]; exact List.mem_cons_self)
  rw [head] at digit
  cases digit

end Toard.Shim
