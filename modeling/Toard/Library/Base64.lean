/-
**Bytes as text: base64 with the alphabet for URLs, without padding.**

Three bytes are four digits of six bits; one byte left over is two digits, and two are three.

* `encode`, `decode`: the two directions, `none` where a character is no digit.
* **`decode_encode`**: what was encoded is decoded to itself.
* **`sextets_bytes`**: numbers that leave no bits behind are those of their bytes, unless a single
  one is left over.
-/

import Mathlib.Data.List.Nodup

namespace Toard.Library.Base64

def digits : List Char :=
  ['A', 'B', 'C', 'D', 'E', 'F', 'G', 'H', 'I', 'J', 'K', 'L', 'M', 'N', 'O', 'P', 'Q', 'R', 'S',
   'T', 'U', 'V', 'W', 'X', 'Y', 'Z', 'a', 'b', 'c', 'd', 'e', 'f', 'g', 'h', 'i', 'j', 'k', 'l',
   'm', 'n', 'o', 'p', 'q', 'r', 's', 't', 'u', 'v', 'w', 'x', 'y', 'z', '0', '1', '2', '3', '4',
   '5', '6', '7', '8', '9', '-', '_']

def digit (n : Nat) : Char := digits.getD n 'A'

/-- The number of a digit. -/
def sextet (c : Char) : Option Nat := digits.findIdx? (· == c)

/-- The numbers of the digits. -/
def sextets : List UInt8 → List Nat
  | [] => []
  | [a] => [a.toNat / 4, a.toNat % 4 * 16]
  | [a, b] => [a.toNat / 4, a.toNat % 4 * 16 + b.toNat / 16, b.toNat % 16 * 4]
  | a :: b :: c :: rest =>
    a.toNat / 4 :: (a.toNat % 4 * 16 + b.toNat / 16) :: (b.toNat % 16 * 4 + c.toNat / 64) ::
      c.toNat % 64 :: sextets rest

/-- The bytes of the numbers; what is left of them is no byte. -/
def bytes : List Nat → List UInt8
  | w :: x :: y :: z :: rest =>
    .ofNat (w * 4 + x / 16) :: .ofNat (x % 16 * 16 + y / 4) :: .ofNat (y % 4 * 64 + z) :: bytes rest
  | [w, x, y] => [.ofNat (w * 4 + x / 16), .ofNat (x % 16 * 16 + y / 4)]
  | [w, x] => [.ofNat (w * 4 + x / 16)]
  | _ => []

def encode (value : List UInt8) : List Char := (sextets value).map digit

def decode (text : List Char) : Option (List UInt8) := (text.mapM sextet).map bytes

theorem nodup_digits : digits.Nodup := by
  have codes : (digits.map Char.toNat).Nodup := by decide
  exact codes.of_map

theorem sextet_digit {n : Nat} (small : n < 64) : sextet (digit n) = some n := by
  have inside : n < digits.length := small
  rw [digit, List.getD_eq_getElem?_getD, List.getElem?_eq_getElem inside, Option.getD_some]
  refine List.findIdx?_eq_some_iff_getElem.mpr ⟨inside, beq_self_eq_true _, fun j before same => ?_⟩
  exact Nat.ne_of_lt before (nodup_digits.getElem_inj_iff.mp (eq_of_beq same))

theorem sextets_lt (value : List UInt8) : ∀ n ∈ sextets value, n < 64 := by
  fun_induction sextets value with
  | case1 => exact fun _ among => absurd among List.not_mem_nil
  | case2 a =>
    have := a.toNat_lt
    simp only [List.forall_mem_cons, List.not_mem_nil, false_imp_iff, implies_true, and_true]
    omega
  | case3 a b =>
    have := a.toNat_lt
    have := b.toNat_lt
    simp only [List.forall_mem_cons, List.not_mem_nil, false_imp_iff, implies_true, and_true]
    omega
  | case4 a b c rest ih =>
    have := a.toNat_lt
    have := b.toNat_lt
    have := c.toNat_lt
    simp only [List.forall_mem_cons]
    refine ⟨by omega, by omega, by omega, by omega, ih⟩

theorem ofNat_eq {a : UInt8} {n : Nat} (same : n = a.toNat) : UInt8.ofNat n = a := by
  rw [same, UInt8.ofNat_toNat]

theorem bytes_sextets (value : List UInt8) : bytes (sextets value) = value := by
  fun_induction sextets value with
  | case1 => rfl
  | case2 a =>
    rw [bytes, ofNat_eq (a := a) (by omega)]
  | case3 a b =>
    have := b.toNat_lt
    rw [bytes, ofNat_eq (a := a) (by omega), ofNat_eq (a := b) (by omega)]
  | case4 a b c rest ih =>
    have := b.toNat_lt
    have := c.toNat_lt
    rw [bytes, ih, ofNat_eq (a := a) (by omega), ofNat_eq (a := b) (by omega),
      ofNat_eq (a := c) (by omega)]

theorem mapM_sextet {numbers : List Nat} (small : ∀ n ∈ numbers, n < 64) :
    (numbers.map digit).mapM sextet = some numbers := by
  induction numbers with
  | nil => rfl
  | cons n rest ih =>
    rw [List.forall_mem_cons] at small
    rw [List.map_cons, List.mapM_cons, sextet_digit small.1, ih small.2]
    rfl

/-- **What was encoded is decoded to itself.** -/
theorem decode_encode (value : List UInt8) : decode (encode value) = some value := by
  rw [decode, encode, mapM_sextet (sextets_lt value), Option.map_some, bytes_sextets]

theorem encode_eq_nil {value : List UInt8} : encode value = [] ↔ value = [] := by
  match value with
  | [] => exact iff_of_true rfl rfl
  | [_] => exact iff_of_false nofun nofun
  | [_, _] => exact iff_of_false nofun nofun
  | _ :: _ :: _ :: _ => exact iff_of_false nofun nofun

theorem sextet_eq_some {c : Char} {n : Nat} (isDigit : sextet c = some n) :
    n < 64 ∧ digit n = c := by
  obtain ⟨inside, same, -⟩ := List.findIdx?_eq_some_iff_getElem.mp isDigit
  refine ⟨inside, ?_⟩
  rw [digit, List.getD_eq_getElem?_getD, List.getElem?_eq_getElem inside, Option.getD_some]
  exact eq_of_beq same

/-- The bits behind the last byte are zero. -/
def IsCanonical : List Nat → Prop
  | _ :: _ :: _ :: _ :: rest => IsCanonical rest
  | [_, _, y] => y % 4 = 0
  | [_, x] => x % 16 = 0
  | [w] => w = 0
  | [] => True

theorem isCanonical_iff_getLast {numbers : List Nat} (single : numbers.length % 4 = 1) :
    IsCanonical numbers ↔ numbers.getLast? = some 0 := by
  induction numbers using bytes.induct with
  | case1 w x y z rest ih =>
    simp only [List.length_cons] at single
    rw [IsCanonical, ih (by omega)]
    rcases rest with _ | ⟨v, rest⟩
    · simp at single
    · rw [List.getLast?_cons_cons, List.getLast?_cons_cons, List.getLast?_cons_cons,
        List.getLast?_cons_cons]
  | case2 w x y => simp at single
  | case3 w x => simp at single
  | case4 numbers longer three two =>
    rcases numbers with _ | ⟨w, _ | ⟨x, _ | ⟨y, _ | ⟨z, rest⟩⟩⟩⟩
    · simp at single
    · simp [IsCanonical]
    · exact absurd rfl (two w x)
    · exact absurd rfl (three w x y)
    · exact absurd rfl (longer w x y z rest)

theorem isCanonical_sextets (value : List UInt8) : IsCanonical (sextets value) := by
  fun_induction sextets value with
  | case1 => exact trivial
  | case2 a => exact Nat.mul_mod_left _ _
  | case3 a b => exact Nat.mul_mod_left _ _
  | case4 a b c rest ih => exact ih

theorem length_sextets (value : List UInt8) : (sextets value).length % 4 ≠ 1 := by
  fun_induction sextets value with
  | case1 => decide
  | case2 a => exact Nat.succ_succ_ne_one 0
  | case3 a b => exact Nat.succ_succ_ne_one 1
  | case4 a b c rest ih =>
    simp only [List.length_cons]
    omega

/-- **Numbers that leave no bits behind are those of their bytes**, unless a single one is left. -/
theorem sextets_bytes {numbers : List Nat} (small : ∀ n ∈ numbers, n < 64)
    (canonical : IsCanonical numbers) (paired : numbers.length % 4 ≠ 1) :
    sextets (bytes numbers) = numbers := by
  fun_induction bytes numbers with
  | case1 w x y z rest ih =>
    simp only [List.forall_mem_cons] at small
    obtain ⟨hw, hx, hy, hz, others⟩ := small
    rw [IsCanonical] at canonical
    simp only [List.length_cons] at paired
    rw [sextets, ih others canonical (by omega)]
    simp only [UInt8.toNat_ofNat']
    congr 1
    · omega
    congr 1
    · omega
    congr 1
    · omega
    congr 1
    omega
  | case2 w x y =>
    simp only [List.forall_mem_cons] at small
    rw [IsCanonical] at canonical
    simp only [sextets, UInt8.toNat_ofNat', List.cons.injEq, and_true]
    omega
  | case3 w x =>
    simp only [List.forall_mem_cons] at small
    rw [IsCanonical] at canonical
    simp only [sextets, UInt8.toNat_ofNat', List.cons.injEq, and_true]
    omega
  | case4 numbers longer three two =>
    rcases numbers with _ | ⟨w, _ | ⟨x, _ | ⟨y, _ | ⟨z, rest⟩⟩⟩⟩
    · rfl
    · exact absurd rfl paired
    · exact absurd rfl (two w x)
    · exact absurd rfl (three w x y)
    · exact absurd rfl (longer w x y z rest)

end Toard.Library.Base64
