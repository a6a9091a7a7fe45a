/-
**Numbers of a fixed width in decimal digits.**

* `zeroPad`: the digits of a number behind as many zeros as a width asks for.
* `fixedNumber`: reading a number of exactly so many digits.
* **`fixedNumber_zeroPad`**: what fits the width is read back; `fixedNumber_of_long` and
  `fixedNumber_of_short` say what happens to a text of more or of fewer digits.
* `zeroPad_append_lt`: texts of a fixed width are in the order of their numbers.
-/

import Mathlib.Tactic.IntervalCases

namespace Toard.Library

/-- The decimal digits of a number, with zeros in front up to a width. -/
def zeroPad (width n : Nat) : List Char :=
  List.replicate (width - (Nat.toDigits 10 n).length) '0' ++ Nat.toDigits 10 n

/-- A number of exactly so many digits, and what follows it. -/
def fixedNumber (width : Nat) (s : List Char) : Option (Nat × List Char) :=
  if (s.take width).length = width ∧ (s.take width).all Char.isDigit then
    some (Nat.ofDigitChars 10 (s.take width) 0, s.drop width)
  else none

theorem isDigit_of_mem_zeroPad {width n : Nat} {c : Char} (among : c ∈ zeroPad width n) :
    c.isDigit := by
  rcases List.mem_append.mp among with zero | digit
  · rw [List.eq_of_mem_replicate zero]
    rfl
  · exact Nat.isDigit_of_mem_toDigits (by decide) (by decide) digit

theorem ofDigitChars_zeroPad (width n : Nat) : Nat.ofDigitChars 10 (zeroPad width n) 0 = n := by
  rw [zeroPad, Nat.ofDigitChars_append, Nat.ofDigitChars_replicate_zero, Nat.mul_zero,
    Nat.ofDigitChars_ten_toDigits]

theorem length_zeroPad {width n : Nat} (positive : 0 < width) (fits : n < 10 ^ width) :
    (zeroPad width n).length = width := by
  have short := (Nat.length_toDigits_le_iff (by decide) positive).mpr fits
  rw [zeroPad, List.length_append, List.length_replicate]
  omega

theorem length_zeroPad_of_le (width : Nat) {n : Nat} (positive : 0 < width) (past : 10 ^ width ≤ n) :
    width < (zeroPad width n).length := by
  have long : ¬ (Nat.toDigits 10 n).length ≤ width := fun short =>
    absurd ((Nat.length_toDigits_le_iff (by decide) positive).mp short) (by omega)
  rw [zeroPad, List.length_append]
  omega

theorem fixedNumber_append {width : Nat} {digits : List Char} (length : digits.length = width)
    (isDigit : ∀ c ∈ digits, c.isDigit) (rest : List Char) :
    fixedNumber width (digits ++ rest) = some (Nat.ofDigitChars 10 digits 0, rest) := by
  rw [fixedNumber, List.take_left' length, List.drop_left' length,
    if_pos ⟨length, List.all_eq_true.mpr isDigit⟩]

/-- **A number that fits the width is read back.** -/
theorem fixedNumber_zeroPad (width : Nat) {n : Nat} (positive : 0 < width) (fits : n < 10 ^ width)
    (rest : List Char) : fixedNumber width (zeroPad width n ++ rest) = some (n, rest) := by
  rw [fixedNumber_append (length_zeroPad positive fits) fun c => isDigit_of_mem_zeroPad,
    ofDigitChars_zeroPad]

theorem fixedNumber_of_long {width : Nat} {digits : List Char} (long : width < digits.length)
    (isDigit : ∀ c ∈ digits, c.isDigit) (rest : List Char) :
    ∃ n c tail, c.isDigit ∧ fixedNumber width (digits ++ rest) = some (n, c :: tail) := by
  obtain ⟨c, tail, split⟩ := List.exists_cons_of_ne_nil
    (List.ne_nil_of_length_pos (by rw [List.length_drop]; omega : 0 < (digits.drop width).length))
  refine ⟨Nat.ofDigitChars 10 (digits.take width) 0, c, tail ++ rest, ?_, ?_⟩
  · exact isDigit c (List.mem_of_mem_drop (split ▸ List.mem_cons_self))
  · have whole : digits ++ rest = digits.take width ++ (c :: (tail ++ rest)) := by
      rw [← List.cons_append, ← split, ← List.append_assoc, List.take_append_drop]
    rw [whole, fixedNumber_append (by rw [List.length_take]; omega)
      fun c among => isDigit c (List.mem_of_mem_take among)]

theorem fixedNumber_of_short {width : Nat} {digits : List Char} {c : Char}
    (short : digits.length < width) (other : c.isDigit = false) (rest : List Char) :
    fixedNumber width (digits ++ c :: rest) = none := by
  refine if_neg fun read => ?_
  have among : c ∈ (digits ++ c :: rest).take width := by
    rw [List.take_append]
    refine List.mem_append_right _ ?_
    obtain ⟨left, same⟩ : ∃ left, width - digits.length = left + 1 :=
      ⟨width - digits.length - 1, by omega⟩
    rw [same, List.take_succ_cons]
    exact List.mem_cons_self
  have isDigit := List.all_eq_true.mp read.2 c among
  rw [other] at isDigit
  cases isDigit

/-! ### Their order -/

theorem zeroPad_succ {width : Nat} (positive : 0 < width) (n : Nat) :
    zeroPad (width + 1) n = zeroPad width (n / 10) ++ [Nat.digitChar (n % 10)] := by
  by_cases small : n < 10
  · have zeros : width - 1 + 1 = width := by omega
    simp only [zeroPad, Nat.toDigits_of_lt_base small, Nat.div_eq_of_lt small, Nat.toDigits_zero,
      Nat.mod_eq_of_lt small, List.length_singleton, Nat.add_sub_cancel]
    rw [← List.replicate_succ', zeros]
  · have shifted : width + 1 - ((Nat.toDigits 10 (n / 10)).length + 1)
        = width - (Nat.toDigits 10 (n / 10)).length := by omega
    rw [zeroPad, zeroPad, Nat.toDigits_of_base_le (by decide) (by omega), List.length_append,
      List.length_singleton, shifted, List.append_assoc]

theorem digitChar_lt {a b : Nat} (before : a < b) (digit : b < 10) :
    Nat.digitChar a < Nat.digitChar b := by
  interval_cases b <;> interval_cases a <;> decide

/-- **Texts of a fixed width are in the order of their numbers**, whatever follows. -/
theorem zeroPad_append_lt {width first last : Nat} (positive : 0 < width) (before : first < last)
    (fits : last < 10 ^ width) (rest rest' : List Char) :
    zeroPad width first ++ rest < zeroPad width last ++ rest' := by
  induction width, positive using Nat.le_induction generalizing first last rest rest' with
  | base =>
    have small : last < 10 := by simpa using fits
    have one (n : Nat) (digit : n < 10) : zeroPad 1 n = [Nat.digitChar n] := by
      rw [zeroPad, Nat.toDigits_of_lt_base digit]
      rfl
    rw [one first (by omega), one last small]
    exact List.cons_lt_cons_iff.mpr (.inl (digitChar_lt before small))
  | succ width positive ih =>
    rw [zeroPad_succ positive, zeroPad_succ positive, List.append_assoc, List.append_assoc]
    rw [Nat.pow_succ] at fits
    by_cases earlier : first / 10 < last / 10
    · exact ih earlier (by omega) _ _
    · have same : first / 10 = last / 10 := by omega
      rw [same]
      exact List.append_left_lt
        (List.cons_lt_cons_iff.mpr (.inl (digitChar_lt (by omega) (by omega))))

end Toard.Library
