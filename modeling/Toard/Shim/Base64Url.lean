/-
**The keys of the end-to-end encryption as text (`e2ee_setup.rs`, `b64url` and `decode_b64url`).**

The encoder takes three bytes at a time. The decoder takes one character at a time and keeps the bits
of which no byte was made yet; at the end these have to be zero.

* **`b64url_canonical`**: a text is decoded only from what was encoded, unless a single character `A`
  is left over.
-/

import Mathlib.Algebra.GroupWithZero.Nat
import Toard.Library.Base64
import Toard.Library.Chunks

namespace Toard.Shim.E2eeSetup

open Toard.Library

/-! ### The source -/

def b64Chunk (alphabet : List Char) (chunk : List UInt8) : List Char :=
  let first := chunk.getD 0 0
  let second := chunk.getD 1 0
  let third := chunk.getD 2 0
  let symbol := fun index : UInt8 => alphabet.getD index.toNat 'A'
  symbol (first >>> 2) :: symbol (((first &&& 3) <<< 4) ||| (second >>> 4)) ::
    ((if 1 < chunk.length then [symbol (((second &&& 15) <<< 2) ||| (third >>> 6))] else []) ++
      if 2 < chunk.length then [symbol (third &&& 63)] else [])

def b64WithAlphabet (alphabet : List Char) (bytes : List UInt8) : List Char :=
  (chunks 3 bytes).flatMap (b64Chunk alphabet)

def b64url (bytes : List UInt8) : String :=
  String.ofList (b64WithAlphabet
    "ABCDEFGHIJKLMNOPQRSTUVWXYZabcdefghijklmnopqrstuvwxyz0123456789-_".toList bytes)

/-- The value of a character. A character that is not ASCII has only bytes without a value. -/
def sextetOf (c : Char) : Option Nat :=
  if 'A' ≤ c ∧ c ≤ 'Z' then some (c.toNat - 'A'.toNat)
  else if 'a' ≤ c ∧ c ≤ 'z' then some (c.toNat - 'a'.toNat + 26)
  else if '0' ≤ c ∧ c ≤ '9' then some (c.toNat - '0'.toNat + 52)
  else if c = '-' then some 62
  else if c = '_' then some 63
  else none

/-- What the decoder has made so far, and the bits of which no byte was made yet. -/
structure Decoding where
  output : List UInt8
  buffer : Nat
  bits : Nat

def Decoding.push (state : Decoding) (value : Nat) : Decoding :=
  let buffer := (state.buffer <<< 6) ||| value
  let bits := state.bits + 6
  if 8 ≤ bits then
    { output := state.output ++ [.ofNat (buffer >>> (bits - 8))]
      buffer := buffer &&& ((1 <<< (bits - 8)) - 1)
      bits := bits - 8 }
  else { state with buffer := buffer, bits := bits }

def decodeB64url (text : String) : Option (List UInt8) :=
  (text.toList.foldlM (fun state c => (sextetOf c).map state.push) ⟨[], 0, 0⟩).bind
    fun state : Decoding => if 0 < state.bits ∧ state.buffer ≠ 0 then none else some state.output

/-! ### The encoder -/

theorem alphabet_eq :
    "ABCDEFGHIJKLMNOPQRSTUVWXYZabcdefghijklmnopqrstuvwxyz0123456789-_".toList = Base64.digits := by
  decide

theorem toNat_and_mask (a : UInt8) {mask : UInt8} {n : Nat} (isMask : mask.toNat = 2 ^ n - 1) :
    (a &&& mask).toNat = a.toNat % 2 ^ n := by
  rw [UInt8.toNat_and, isMask, Nat.and_two_pow_sub_one_eq_mod]

theorem toNat_shiftRight (a : UInt8) {shift : UInt8} {n : Nat} (isShift : shift.toNat = n)
    (small : n < 8) : (a >>> shift).toNat = a.toNat / 2 ^ n := by
  rw [UInt8.toNat_shiftRight, isShift, Nat.mod_eq_of_lt small, Nat.shiftRight_eq_div_pow]

theorem toNat_joined (a b : UInt8) {mask left right : UInt8} {n m : Nat}
    (isMask : mask.toNat = 2 ^ n - 1) (isLeft : left.toNat = m) (isRight : right.toNat = 8 - m)
    (fits : n + m = 6) (some : 0 < m) :
    (((a &&& mask) <<< left) ||| (b >>> right)).toNat
      = a.toNat % 2 ^ n * 2 ^ m + b.toNat / 2 ^ (8 - m) := by
  have low : b.toNat / 2 ^ (8 - m) < 2 ^ m := by
    rw [Nat.div_lt_iff_lt_mul (Nat.two_pow_pos _), ← Nat.pow_add]
    have whole : m + (8 - m) = 8 := by omega
    rw [whole]
    exact b.toNat_lt
  have high : a.toNat % 2 ^ n * 2 ^ m < 256 := by
    have bound : a.toNat % 2 ^ n < 2 ^ n := Nat.mod_lt _ (Nat.two_pow_pos _)
    have scaled := Nat.mul_lt_mul_of_pos_right bound (Nat.two_pow_pos m)
    rw [← Nat.pow_add, fits] at scaled
    omega
  rw [UInt8.toNat_or, toNat_shiftRight b isRight (by omega), UInt8.toNat_shiftLeft,
    toNat_and_mask a isMask, isLeft, Nat.mod_eq_of_lt (show m < 8 by omega), Nat.shiftLeft_eq,
    Nat.mod_eq_of_lt high, ← Nat.shiftLeft_eq, Nat.shiftLeft_add_eq_or_of_lt low]

theorem b64WithAlphabet_cons {alphabet : List Char} {bytes : List UInt8} (nonempty : bytes ≠ []) :
    b64WithAlphabet alphabet bytes
      = b64Chunk alphabet (bytes.take 3) ++ b64WithAlphabet alphabet (bytes.drop 3) := by
  rw [b64WithAlphabet, chunks_eq_cons (by decide) nonempty, List.flatMap_cons]
  rfl

theorem b64WithAlphabet_nil (alphabet : List Char) : b64WithAlphabet alphabet [] = [] := by
  rw [b64WithAlphabet, chunks_nil (by decide)]
  rfl

theorem b64Chunk_eq (chunk : List UInt8) (nonempty : chunk ≠ []) (short : chunk.length ≤ 3) :
    b64Chunk Base64.digits chunk = Base64.encode chunk := by
  have shifted (a : UInt8) : (a >>> 2).toNat = a.toNat / 4 :=
    toNat_shiftRight a (n := 2) rfl (by decide)
  have masked (a : UInt8) : (a &&& 63).toNat = a.toNat % 64 := toNat_and_mask a (n := 6) rfl
  have first (a b : UInt8) : (((a &&& 3) <<< 4) ||| (b >>> 4)).toNat
      = a.toNat % 4 * 16 + b.toNat / 16 :=
    toNat_joined a b (n := 2) (m := 4) rfl rfl rfl rfl (by decide)
  have second (a b : UInt8) : (((a &&& 15) <<< 2) ||| (b >>> 6)).toNat
      = a.toNat % 16 * 4 + b.toNat / 64 :=
    toNat_joined a b (n := 4) (m := 2) rfl rfl rfl rfl (by decide)
  rcases chunk with _ | ⟨a, _ | ⟨b, _ | ⟨c, _ | ⟨d, rest⟩⟩⟩⟩
  · exact absurd rfl nonempty
  · show [Base64.digits.getD (a >>> 2).toNat 'A',
      Base64.digits.getD (((a &&& 3) <<< 4) ||| ((0 : UInt8) >>> 4)).toNat 'A'] = _
    rw [shifted, first]
    rfl
  · show [Base64.digits.getD (a >>> 2).toNat 'A',
      Base64.digits.getD (((a &&& 3) <<< 4) ||| (b >>> 4)).toNat 'A',
      Base64.digits.getD (((b &&& 15) <<< 2) ||| ((0 : UInt8) >>> 6)).toNat 'A'] = _
    rw [shifted, first, second]
    rfl
  · show [Base64.digits.getD (a >>> 2).toNat 'A',
      Base64.digits.getD (((a &&& 3) <<< 4) ||| (b >>> 4)).toNat 'A',
      Base64.digits.getD (((b &&& 15) <<< 2) ||| (c >>> 6)).toNat 'A',
      Base64.digits.getD (c &&& 63).toNat 'A'] = _
    rw [shifted, first, second, masked]
    rfl
  · simp only [List.length_cons] at short
    omega

/-- **The encoder writes the digits of the library.** -/
theorem b64url_eq (bytes : List UInt8) : b64url bytes = String.ofList (Base64.encode bytes) := by
  rw [b64url, alphabet_eq]
  congr 1
  induction bytes using Base64.sextets.induct with
  | case1 => rfl
  | case2 a =>
    rw [b64WithAlphabet_cons (List.cons_ne_nil _ _), b64Chunk_eq _ (by simp) (by simp)]
    show Base64.encode [a] ++ b64WithAlphabet Base64.digits [] = _
    rw [b64WithAlphabet_nil, List.append_nil]
  | case3 a b =>
    rw [b64WithAlphabet_cons (List.cons_ne_nil _ _), b64Chunk_eq _ (by simp) (by simp)]
    show Base64.encode [a, b] ++ b64WithAlphabet Base64.digits [] = _
    rw [b64WithAlphabet_nil, List.append_nil]
  | case4 a b c rest ih =>
    rw [b64WithAlphabet_cons (List.cons_ne_nil _ _), b64Chunk_eq _ (by simp) (by simp)]
    show Base64.encode [a, b, c] ++ b64WithAlphabet Base64.digits rest = _
    rw [ih]
    rfl

/-! ### The decoder -/

theorem sextetOf_digit : ∀ n < 64, sextetOf (Base64.digit n) = some n := by decide

theorem digit_of_range {base offset count : Nat} {c : Char}
    (digits : ∀ k < count, Base64.digit (k + offset) = Char.ofNat (base + k))
    (least : base ≤ c.toNat) (most : c.toNat < base + count) :
    Base64.digit (c.toNat - base + offset) = c := by
  rw [digits (c.toNat - base) (by omega), Nat.add_sub_cancel' least, Char.ofNat_toNat]

theorem digit_of_sextetOf {c : Char} {n : Nat} (isRead : sextetOf c = some n) :
    n < 64 ∧ Base64.digit n = c := by
  have most {last : Char} (below : c ≤ last) : c.toNat ≤ last.toNat := Char.le_def.mp below
  have least {first : Char} (above : first ≤ c) : first.toNat ≤ c.toNat := Char.le_def.mp above
  unfold sextetOf at isRead
  split_ifs at isRead with upper lower decimal dash underscore <;> obtain rfl := Option.some.inj isRead
  · have below : c.toNat ≤ 90 := most upper.2
    exact ⟨by change c.toNat - 65 < 64; omega,
      @digit_of_range 65 0 26 c (by decide) (least upper.1) (Nat.lt_succ_of_le below)⟩
  · have below : c.toNat ≤ 122 := most lower.2
    exact ⟨by change c.toNat - 97 + 26 < 64; omega,
      @digit_of_range 97 26 26 c (by decide) (least lower.1) (Nat.lt_succ_of_le below)⟩
  · have below : c.toNat ≤ 57 := most decimal.2
    exact ⟨by change c.toNat - 48 + 52 < 64; omega,
      @digit_of_range 48 52 10 c (by decide) (least decimal.1) (Nat.lt_succ_of_le below)⟩
  · exact ⟨by decide, dash ▸ rfl⟩
  · exact ⟨by decide, underscore ▸ rfl⟩

theorem sextetOf_eq (c : Char) : sextetOf c = Base64.sextet c := by
  cases isRead : sextetOf c with
  | some n =>
    obtain ⟨small, rfl⟩ := digit_of_sextetOf isRead
    exact (Base64.sextet_digit small).symm
  | none =>
    cases isDigit : Base64.sextet c with
    | none => rfl
    | some n =>
      obtain ⟨small, rfl⟩ := Base64.sextet_eq_some isDigit
      cases isRead.symm.trans (sextetOf_digit n small)

theorem foldlM_push (text : List Char) (state : Decoding) :
    text.foldlM (fun state c => (sextetOf c).map state.push) state
      = (text.mapM Base64.sextet).map fun values => values.foldl Decoding.push state := by
  induction text generalizing state with
  | nil => rfl
  | cons c rest ih =>
    rw [List.foldlM_cons, List.mapM_cons, sextetOf_eq]
    cases Base64.sextet c with
    | none => rfl
    | some value =>
      show rest.foldlM _ (state.push value) = _
      rw [ih]
      cases rest.mapM Base64.sextet <;> rfl

theorem push_eq (state : Decoding) {value : Nat} (small : value < 64) :
    state.push value = if 8 ≤ state.bits + 6 then
        ⟨state.output ++ [.ofNat ((state.buffer * 64 + value) / 2 ^ (state.bits + 6 - 8))],
          (state.buffer * 64 + value) % 2 ^ (state.bits + 6 - 8), state.bits + 6 - 8⟩
      else ⟨state.output, state.buffer * 64 + value, state.bits + 6⟩ := by
  have joined : (state.buffer <<< 6) ||| value = state.buffer * 64 + value := by
    rw [← Nat.shiftLeft_add_eq_or_of_lt (i := 6) small, Nat.shiftLeft_eq]
  simp only [Decoding.push, joined, Nat.shiftRight_eq_div_pow, Nat.one_shiftLeft,
    Nat.and_two_pow_sub_one_eq_mod]

section Digits

variable {output : List UInt8} {rest value : Nat} (small : value < 64)

include small

theorem push_first : Decoding.push ⟨output, 0, 0⟩ value = ⟨output, value, 6⟩ := by
  rw [push_eq _ small, if_neg (show ¬ 8 ≤ 0 + 6 by decide), Nat.zero_mul, Nat.zero_add]

theorem push_second : Decoding.push ⟨output, rest, 6⟩ value
    = ⟨output ++ [.ofNat (rest * 4 + value / 16)], value % 16, 4⟩ := by
  have whole : (rest * 64 + value) / 16 = rest * 4 + value / 16 := by omega
  have left : (rest * 64 + value) % 16 = value % 16 := by omega
  rw [push_eq _ small, if_pos (show 8 ≤ 6 + 6 by decide)]
  show Decoding.mk (output ++ [.ofNat ((rest * 64 + value) / 16)]) ((rest * 64 + value) % 16) 4 = _
  rw [whole, left]

theorem push_third : Decoding.push ⟨output, rest, 4⟩ value
    = ⟨output ++ [.ofNat (rest * 16 + value / 4)], value % 4, 2⟩ := by
  have whole : (rest * 64 + value) / 4 = rest * 16 + value / 4 := by omega
  have left : (rest * 64 + value) % 4 = value % 4 := by omega
  rw [push_eq _ small, if_pos (show 8 ≤ 4 + 6 by decide)]
  show Decoding.mk (output ++ [.ofNat ((rest * 64 + value) / 4)]) ((rest * 64 + value) % 4) 2 = _
  rw [whole, left]

theorem push_fourth : Decoding.push ⟨output, rest, 2⟩ value
    = ⟨output ++ [.ofNat (rest * 64 + value)], 0, 0⟩ := by
  rw [push_eq _ small, if_pos (show 8 ≤ 2 + 6 by decide)]
  show Decoding.mk (output ++ [.ofNat ((rest * 64 + value) / 1)]) ((rest * 64 + value) % 1) 0 = _
  rw [Nat.div_one, Nat.mod_one]

end Digits

theorem foldl_push (values : List Nat) (small : ∀ n ∈ values, n < 64) (output : List UInt8) :
    (values.foldl Decoding.push ⟨output, 0, 0⟩).output = output ++ Base64.bytes values ∧
      (¬ (0 < (values.foldl Decoding.push ⟨output, 0, 0⟩).bits ∧
        (values.foldl Decoding.push ⟨output, 0, 0⟩).buffer ≠ 0) ↔ Base64.IsCanonical values) := by
  induction values using Base64.bytes.induct generalizing output with
  | case1 w x y z rest ih =>
    simp only [List.forall_mem_cons] at small
    obtain ⟨hw, hx, hy, hz, others⟩ := small
    rw [List.foldl_cons, List.foldl_cons, List.foldl_cons, List.foldl_cons, push_first hw,
      push_second hx, push_third hy, push_fourth hz, Base64.bytes, Base64.IsCanonical]
    obtain ⟨made, ends⟩ := ih others (output ++ [.ofNat (w * 4 + x / 16)]
      ++ [.ofNat (x % 16 * 16 + y / 4)] ++ [.ofNat (y % 4 * 64 + z)])
    refine ⟨made.trans ?_, ends⟩
    simp only [List.append_assoc, List.cons_append, List.nil_append]
  | case2 w x y =>
    simp only [List.forall_mem_cons] at small
    rw [List.foldl_cons, List.foldl_cons, List.foldl_cons, List.foldl_nil, push_first small.1,
      push_second small.2.1, push_third small.2.2.1, Base64.bytes, Base64.IsCanonical]
    exact ⟨by simp, by simp⟩
  | case3 w x =>
    simp only [List.forall_mem_cons] at small
    rw [List.foldl_cons, List.foldl_cons, List.foldl_nil, push_first small.1,
      push_second small.2.1, Base64.bytes, Base64.IsCanonical]
    exact ⟨rfl, by simp⟩
  | case4 values longer three two =>
    rcases values with _ | ⟨w, _ | ⟨x, _ | ⟨y, _ | ⟨z, rest⟩⟩⟩⟩
    · exact ⟨(List.append_nil _).symm, by simp [Base64.IsCanonical]⟩
    · rw [List.foldl_cons, List.foldl_nil, push_first (small w List.mem_cons_self)]
      exact ⟨(List.append_nil _).symm, by simp [Base64.IsCanonical]⟩
    · exact absurd rfl (two w x)
    · exact absurd rfl (three w x y)
    · exact absurd rfl (longer w x y z rest)

theorem mapM_sextet_eq_some {text : List Char} {values : List Nat}
    (isRead : text.mapM Base64.sextet = some values) :
    (∀ n ∈ values, n < 64) ∧ values.map Base64.digit = text := by
  induction text generalizing values with
  | nil =>
    obtain rfl := Option.some.inj isRead
    exact ⟨by simp, rfl⟩
  | cons c rest ih =>
    rw [List.mapM_cons] at isRead
    obtain ⟨value, isValue, isRead⟩ := Option.bind_eq_some_iff.mp isRead
    obtain ⟨others, areOthers, isRead⟩ := Option.bind_eq_some_iff.mp isRead
    obtain rfl := Option.some.inj isRead
    obtain ⟨small, isDigit⟩ := Base64.sextet_eq_some isValue
    obtain ⟨smaller, areDigits⟩ := ih areOthers
    exact ⟨List.forall_mem_cons.mpr ⟨small, smaller⟩, by rw [List.map_cons, isDigit, areDigits]⟩

theorem decodeB64url_eq_some {text : String} {bytes : List UInt8} :
    decodeB64url text = some bytes ↔ ∃ values, text.toList.mapM Base64.sextet = some values ∧
      Base64.IsCanonical values ∧ Base64.bytes values = bytes := by
  rw [decodeB64url, foldlM_push]
  cases isRead : text.toList.mapM Base64.sextet with
  | none => simp
  | some values =>
    obtain ⟨made, ends⟩ := foldl_push values (mapM_sextet_eq_some isRead).1 []
    rw [List.nil_append] at made
    rw [Option.map_some, Option.bind_some, made]
    constructor
    · intro taken
      obtain ⟨zero, same⟩ := Option.ite_none_left_eq_some.mp taken
      exact ⟨values, rfl, ends.mp zero, Option.some.inj same⟩
    · rintro ⟨others, same, canonical, rfl⟩
      obtain rfl := Option.some.inj same
      exact if_neg (ends.mpr canonical)

/-- A text with a single character behind the last group, which has to be an `A`. -/
structure IsDangling (text : String) : Prop where
  single : text.length % 4 = 1
  digits : ∀ c ∈ text.toList, (sextetOf c).isSome
  last : text.toList.getLast? = some 'A'

theorem length_mapM_sextet {text : String} {values : List Nat}
    (isRead : text.toList.mapM Base64.sextet = some values) : values.length = text.length := by
  rw [← String.length_toList, ← (mapM_sextet_eq_some isRead).2, List.length_map]

theorem exists_mapM_sextet {text : List Char} (digits : ∀ c ∈ text, (Base64.sextet c).isSome) :
    ∃ values, text.mapM Base64.sextet = some values := by
  induction text with
  | nil => exact ⟨[], rfl⟩
  | cons c rest ih =>
    rw [List.forall_mem_cons] at digits
    obtain ⟨value, isValue⟩ := Option.isSome_iff_exists.mp digits.1
    obtain ⟨values, isRead⟩ := ih digits.2
    exact ⟨value :: values, by rw [List.mapM_cons, isValue, isRead]; rfl⟩

theorem IsDangling.isCanonical {text : String} (dangling : IsDangling text) :
    ∃ values, text.toList.mapM Base64.sextet = some values ∧ Base64.IsCanonical values := by
  have digits : ∀ c ∈ text.toList, (Base64.sextet c).isSome := fun c among => by
    rw [← sextetOf_eq]
    exact dangling.digits c among
  obtain ⟨values, isRead⟩ := exists_mapM_sextet digits
  obtain ⟨small, areDigits⟩ := mapM_sextet_eq_some isRead
  refine ⟨values, isRead, ?_⟩
  have single : values.length % 4 = 1 := by
    rw [length_mapM_sextet isRead]
    exact dangling.single
  rw [Base64.isCanonical_iff_getLast single]
  have last := dangling.last
  rw [← areDigits, List.getLast?_map] at last
  obtain ⟨value, isLast, isDigit⟩ := Option.map_eq_some_iff.mp last
  have zero : ∀ n < 64, Base64.digit n = 'A' → n = 0 := by decide
  rw [isLast, zero value (small value (List.mem_of_getLast? isLast)) isDigit]

/-- **What was encoded is decoded, and a decoded text was encoded** just if no single character is
left over. -/
theorem b64url_canonical (bytes : List UInt8) (text : String) :
    decodeB64url (b64url bytes) = some bytes ∧
      ((∀ decoded, decodeB64url text = some decoded → b64url decoded = text) ↔
        ¬ IsDangling text) := by
  constructor
  · rw [b64url_eq, decodeB64url_eq_some]
    refine ⟨Base64.sextets bytes, ?_, Base64.isCanonical_sextets bytes, Base64.bytes_sextets bytes⟩
    rw [String.toList_ofList]
    exact Base64.mapM_sextet (Base64.sextets_lt bytes)
  constructor
  · intro encoded dangling
    obtain ⟨values, isRead, canonical⟩ := dangling.isCanonical
    have same := encoded _ (decodeB64url_eq_some.mpr ⟨values, isRead, canonical, rfl⟩)
    have length := congrArg String.length same
    rw [b64url_eq, Base64.encode, String.length_ofList, List.length_map] at length
    exact Base64.length_sextets _ (length ▸ dangling.single)
  · intro paired decoded isDecoded
    obtain ⟨values, isRead, canonical, rfl⟩ := decodeB64url_eq_some.mp isDecoded
    obtain ⟨small, areDigits⟩ := mapM_sextet_eq_some isRead
    have pairs : values.length % 4 ≠ 1 := by
      intro single
      refine paired ⟨length_mapM_sextet isRead ▸ single, fun c among => ?_, ?_⟩
      · rw [← areDigits] at among
        obtain ⟨n, isNumber, rfl⟩ := List.mem_map.mp among
        rw [sextetOf_eq, Base64.sextet_digit (small n isNumber)]
        rfl
      · rw [← areDigits, List.getLast?_map, (Base64.isCanonical_iff_getLast single).mp canonical]
        rfl
    rw [b64url_eq, Base64.encode, Base64.sextets_bytes small canonical pairs, areDigits,
      String.ofList_toList]

/-- A single character is taken for nothing. -/
theorem dangling_character_taken : ¬ ((∀ bytes, decodeB64url (b64url bytes) = some bytes) ∧
    ∀ text decoded, decodeB64url text = some decoded → b64url decoded = text) := by
  rintro ⟨-, encoded⟩
  exact absurd (encoded "A" [] (by decide)) (by decide)

end Toard.Shim.E2eeSetup
