/-
**The strings of a JSON text.**

A string is read by itself, whatever stands behind it: a text of the grammar whose surrogate escapes
come in pairs, and each of these, gives one string (`string_eq_some`, `exists_string`).

* **`string_writeString`**: a printed string is read back.
-/

import Mathlib.Data.String.Basic
import Toard.Json.Value
import Toard.Library.JsonGrammar

namespace Toard.Json

open Toard.Library

/-! ### Printed strings -/

theorem stringBody_flatMap (text rest : List Char) (fuel : Nat) (enough : text.length < fuel) :
    stringBody fuel (text.flatMap writeChar ++ '"' :: rest) = some (text, rest) := by
  induction text generalizing fuel with
  | nil =>
    obtain ⟨fuel, rfl⟩ := Nat.exists_eq_add_of_lt enough
    simp [stringBody]
  | cons c text ih =>
    obtain ⟨fuel, rfl⟩ : ∃ less, fuel = less + 1 := ⟨fuel - 1, by omega⟩
    rw [List.flatMap_cons, List.append_assoc]
    exact stringBody_writeChar c (ih fuel (by simpa using enough))

theorem length_writeChar_pos (c : Char) : 1 ≤ (writeChar c).length := by
  unfold writeChar
  split
  case h_8 => split <;> simp
  all_goals simp

theorem length_flatMap_writeChar (text : List Char) :
    text.length ≤ (text.flatMap writeChar).length := by
  induction text with
  | nil => simp
  | cons c text ih =>
    have one := length_writeChar_pos c
    rw [List.flatMap_cons, List.length_append, List.length_cons]
    omega

/-- **A printed string is read back as itself**, whatever its characters. -/
theorem string_writeString (text : String) (rest : List Char) :
    string (writeString text ++ rest) = some (text, rest) := by
  have longer := length_flatMap_writeChar text.toList
  have body := stringBody_flatMap text.toList rest
    ((text.toList.flatMap writeChar ++ '"' :: rest).length + 1) (by
      rw [List.length_append]
      omega)
  simp only [string, writeString, List.cons_append, List.append_assoc, List.nil_append, expect]
  rw [if_pos trivial, Option.bind_eq_bind, Option.bind_some, body]
  simp [String.ofList_toList]

theorem writeString_append_inj {left right : String} {rest rest' : List Char}
    (same : writeString left ++ rest = writeString right ++ rest') : left = right ∧ rest = rest' := by
  have read := string_writeString left rest
  rw [same, string_writeString, Option.some.injEq, Prod.mk.injEq] at read
  exact ⟨read.1.symm, read.2.symm⟩

/-! ### Hexadecimal digits -/

theorem le_iff_toNat {c d : Char} : c ≤ d ↔ c.toNat ≤ d.toNat :=
  Char.le_def.trans UInt32.le_iff_toNat_le

theorem toDigit16_eq_some {c : Char} {n : Nat} : toDigit16 c = some n ↔
    (48 ≤ c.toNat ∧ c.toNat ≤ 57 ∧ n + 48 = c.toNat) ∨
      (97 ≤ c.toNat ∧ c.toNat ≤ 102 ∧ n + 87 = c.toNat) ∨
      (65 ≤ c.toNat ∧ c.toNat ≤ 70 ∧ n + 55 = c.toNat) := by
  have codes : '0'.toNat = 48 ∧ '9'.toNat = 57 ∧ 'a'.toNat = 97 ∧ 'f'.toNat = 102 ∧
      'A'.toNat = 65 ∧ 'F'.toNat = 70 := by decide
  unfold toDigit16
  simp only [le_iff_toNat, codes]
  split
  · rw [Option.some_inj]
    omega
  · split
    · rw [Option.some_inj]
      omega
    · split
      · rw [Option.some_inj]
        omega
      · refine iff_of_false (by simp) ?_
        omega

theorem hexDigit_iff {c : Char} : HexDigit c ↔ ∃ n, toDigit16 c = some n ∧ n < 16 := by
  have codes : '0'.toNat = 48 ∧ '9'.toNat = 57 ∧ 'a'.toNat = 97 ∧ 'f'.toNat = 102 ∧
      'A'.toNat = 65 ∧ 'F'.toNat = 70 := by decide
  simp only [HexDigit, le_iff_toNat, codes, toDigit16_eq_some]
  constructor
  · rintro (digit | lower | upper)
    · exact ⟨c.toNat - 48, by omega⟩
    · exact ⟨c.toNat - 87, by omega⟩
    · exact ⟨c.toNat - 55, by omega⟩
  · rintro ⟨n, value, -⟩
    omega

theorem highSurrogate_iff {a b : Char} {m n : Nat} (first : toDigit16 a = some m)
    (second : toDigit16 b = some n) : HighSurrogate a b ↔ m = 13 ∧ 8 ≤ n ∧ n < 12 := by
  have codes : 'd'.toNat = 100 ∧ 'D'.toNat = 68 ∧ '8'.toNat = 56 ∧ '9'.toNat = 57 ∧
      'a'.toNat = 97 ∧ 'b'.toNat = 98 ∧ 'A'.toNat = 65 ∧ 'B'.toNat = 66 := by decide
  rw [toDigit16_eq_some] at first second
  simp only [HighSurrogate, le_iff_toNat, ← Char.toNat_inj, codes]
  omega

theorem lowSurrogate_iff {a b : Char} {m n : Nat} (first : toDigit16 a = some m)
    (second : toDigit16 b = some n) : LowSurrogate a b ↔ m = 13 ∧ 12 ≤ n := by
  have codes : 'd'.toNat = 100 ∧ 'D'.toNat = 68 ∧ 'c'.toNat = 99 ∧ 'f'.toNat = 102 ∧
      'C'.toNat = 67 ∧ 'F'.toNat = 70 := by decide
  rw [toDigit16_eq_some] at first second
  simp only [LowSurrogate, le_iff_toNat, ← Char.toNat_inj, codes]
  omega

theorem hex4_eq_some {a b c d : Char} {code : Nat} (value : hex4 a b c d = some code) :
    HexDigit a ∧ HexDigit b ∧ HexDigit c ∧ HexDigit d ∧ code < 0x10000 ∧
      (HighSurrogate a b ↔ 0xD800 ≤ code ∧ code < 0xDC00) ∧
      (LowSurrogate a b ↔ 0xDC00 ≤ code ∧ code < 0xE000) := by
  simp only [hex4, Option.bind_eq_bind, Option.bind_eq_some_iff, Option.some.injEq] at value
  obtain ⟨i, isA, j, isB, k, isC, l, isD, rfl⟩ := value
  have small : ∀ {e : Char} {n : Nat}, toDigit16 e = some n → n < 16 := by
    intro e n isE
    rw [toDigit16_eq_some] at isE
    omega
  have smallA := small isA
  have smallB := small isB
  have smallC := small isC
  have smallD := small isD
  rw [highSurrogate_iff isA isB, lowSurrogate_iff isA isB]
  refine ⟨hexDigit_iff.mpr ⟨i, isA, smallA⟩, hexDigit_iff.mpr ⟨j, isB, smallB⟩,
    hexDigit_iff.mpr ⟨k, isC, smallC⟩, hexDigit_iff.mpr ⟨l, isD, smallD⟩, ?_, ?_, ?_⟩
  all_goals omega

theorem exists_hex4 {a b c d : Char} (isA : HexDigit a) (isB : HexDigit b) (isC : HexDigit c)
    (isD : HexDigit d) : ∃ code, hex4 a b c d = some code := by
  obtain ⟨i, isA, -⟩ := hexDigit_iff.mp isA
  obtain ⟨j, isB, -⟩ := hexDigit_iff.mp isB
  obtain ⟨k, isC, -⟩ := hexDigit_iff.mp isC
  obtain ⟨l, isD, -⟩ := hexDigit_iff.mp isD
  exact ⟨_, by rw [hex4, isA, isB, isC, isD]; rfl⟩

theorem fromU32_eq_some (code : Nat) (small : code < 0x110000)
    (plain : ¬ (0xD800 ≤ code ∧ code < 0xE000)) : ∃ char, fromU32 code = some char := by
  have valid : code.isValidChar := by
    unfold Nat.isValidChar
    omega
  exact ⟨_, dif_pos valid⟩

theorem not_surrogate_of_fromU32 {code : Nat} {char : Char} (read : fromU32 code = some char) :
    ¬ (0xD800 ≤ code ∧ code < 0xE000) := by
  obtain ⟨valid, -⟩ := Option.dite_none_right_eq_some.mp read
  unfold Nat.isValidChar at valid
  omega

/-! ### Read strings -/

theorem simpleEscape_iff {c : Char} : (simpleEscape c).isSome = true ↔ SimpleEscape c := by
  unfold simpleEscape SimpleEscape
  split <;> simp_all

theorem surrogate_eq_some {hi : Nat} {s rest : List Char} {char : Char}
    (read : surrogate hi s = some (char, rest)) : ∃ a b c d, HexDigit a ∧ HexDigit b ∧ HexDigit c ∧
      HexDigit d ∧ LowSurrogate a b ∧ s = '\\' :: 'u' :: a :: b :: c :: d :: rest := by
  unfold surrogate at read
  split at read
  case h_1 a b c d after =>
    simp only [Option.bind_eq_bind, Option.bind_eq_some_iff] at read
    obtain ⟨lo, value, within⟩ := read
    split at within
    case isTrue low =>
      obtain ⟨char', -, same⟩ := Option.bind_eq_some_iff.mp within
      cases same
      obtain ⟨isA, isB, isC, isD, -, -, isLow⟩ := hex4_eq_some value
      exact ⟨a, b, c, d, isA, isB, isC, isD, isLow.mpr low, rfl⟩
    case isFalse => cases within
  case h_2 => cases read

/-- **What an escape reads** is an escape of the grammar. -/
theorem escape_eq_some {s rest : List Char} {char : Char} (read : escape s = some (char, rest)) :
    ∃ text, PairedText ('\\' :: text) ∧ s = text ++ rest := by
  unfold escape at read
  split at read
  case h_1 a b c d after =>
    simp only [Option.bind_eq_bind, Option.bind_eq_some_iff] at read
    obtain ⟨hi, value, read⟩ := read
    obtain ⟨isA, isB, isC, isD, -, high, low⟩ := hex4_eq_some value
    split at read
    case isTrue isHigh =>
      obtain ⟨a', b', c', d', isA', isB', isC', isD', isLow, rfl⟩ := surrogate_eq_some read
      exact ⟨_, .pair isA isB isC isD isA' isB' isC' isD' (high.mpr isHigh) isLow, rfl⟩
    case isFalse notHigh =>
      obtain ⟨char', isChar, same⟩ := Option.bind_eq_some_iff.mp read
      cases same
      have plain := not_surrogate_of_fromU32 isChar
      refine ⟨_, .hex isA isB isC isD (fun isHigh => notHigh (high.mp isHigh))
        fun isLow => plain ?_, rfl⟩
      have := low.mp isLow
      omega
  case h_2 c after _ =>
    obtain ⟨char', letter, same⟩ := Option.map_eq_some_iff.mp read
    cases same
    exact ⟨[c], .simple (simpleEscape_iff.mp (Option.isSome_of_eq_some letter)), rfl⟩
  case h_3 => cases read

theorem exists_escape {text : List Char} (escaped : PairedText ('\\' :: text)) :
    ∃ char, ∀ rest, escape (text ++ rest) = some (char, rest) := by
  generalize isText : '\\' :: text = whole at escaped
  cases escaped with
  | unescaped plain =>
    cases isText
    exact absurd rfl plain.2.1
  | @simple c letter =>
    cases isText
    obtain ⟨char, isChar⟩ := Option.isSome_iff_exists.mp (simpleEscape_iff.mpr letter)
    have other : c ≠ 'u' := by
      rintro rfl
      exact absurd letter (by simp [SimpleEscape])
    refine ⟨char, fun rest => ?_⟩
    unfold escape
    split
    case h_1 same => exact absurd (List.cons.inj same).1 other
    case h_2 same =>
      cases same
      rw [isChar]
      rfl
    case h_3 same => cases same
  | @hex a b c d isA isB isC isD notHigh notLow =>
    cases isText
    obtain ⟨code, value⟩ := exists_hex4 isA isB isC isD
    obtain ⟨-, -, -, -, small, high, low⟩ := hex4_eq_some value
    rw [high] at notHigh
    rw [low] at notLow
    obtain ⟨char, isChar⟩ := fromU32_eq_some code (by omega) (by omega)
    exact ⟨char, fun rest => by simp [escape, value, notHigh, isChar]⟩
  | @pair a b c d a' b' c' d' isA isB isC isD isA' isB' isC' isD' isHigh isLow =>
    cases isText
    obtain ⟨hi, value⟩ := exists_hex4 isA isB isC isD
    obtain ⟨lo, value'⟩ := exists_hex4 isA' isB' isC' isD'
    obtain ⟨-, -, -, -, -, high, -⟩ := hex4_eq_some value
    obtain ⟨-, -, -, -, -, -, low⟩ := hex4_eq_some value'
    rw [high] at isHigh
    rw [low] at isLow
    obtain ⟨char, isChar⟩ := fromU32_eq_some (0x10000 + (hi - 0xD800) * 1024 + (lo - 0xDC00))
      (by omega) (by omega)
    exact ⟨char, fun rest => by simp [escape, surrogate, value, value', isHigh, isLow, isChar]⟩

/-- **What the body of a string reads** is a body of the grammar. -/
theorem stringBody_eq_some {fuel : Nat} {s text rest : List Char}
    (read : stringBody fuel s = some (text, rest)) :
    ∃ body, StringBody PairedText body ∧ s = body ++ '"' :: rest := by
  induction fuel generalizing s text with
  | zero =>
    rw [stringBody] at read
    cases read
  | succ fuel ih =>
    cases s with
    | nil =>
      rw [stringBody] at read
      cases read
    | cons c after =>
      rw [stringBody] at read
      split at read
      case isTrue quote =>
        cases read
        exact ⟨[], .nil, by rw [quote]; rfl⟩
      case isFalse notQuote =>
      split at read
      case isTrue backslash =>
        simp only [Option.bind_eq_bind, Option.bind_eq_some_iff] at read
        obtain ⟨⟨char, middle⟩, one, ⟨more, end_⟩, others, same⟩ := read
        cases same
        obtain ⟨body, isBody, rfl⟩ := ih others
        obtain ⟨escaped, isEscape, rfl⟩ := escape_eq_some one
        exact ⟨_, .cons isEscape isBody, by rw [backslash]; simp⟩
      case isFalse notBackslash =>
      split at read
      case isTrue => cases read
      case isFalse printed =>
        simp only [Option.bind_eq_bind, Option.bind_eq_some_iff] at read
        obtain ⟨⟨more, end_⟩, others, same⟩ := read
        cases same
        obtain ⟨body, isBody, rfl⟩ := ih others
        exact ⟨_, .cons (.unescaped ⟨notQuote, notBackslash, not_lt.mp printed⟩) isBody, rfl⟩

theorem exists_stringBody {body : List Char} (isBody : StringBody PairedText body) :
    ∃ text, ∀ rest fuel, body.length < fuel →
      stringBody fuel (body ++ '"' :: rest) = some (text, rest) := by
  induction isBody with
  | nil =>
    refine ⟨[], fun rest fuel enough => ?_⟩
    obtain ⟨fuel, rfl⟩ := Nat.exists_eq_succ_of_ne_zero (Nat.ne_of_gt enough)
    rfl
  | @cons one others isOne _ ih =>
    obtain ⟨more, isMore⟩ := ih
    by_cases escaped : ∃ text, one = '\\' :: text
    · obtain ⟨text, rfl⟩ := escaped
      obtain ⟨char, isChar⟩ := exists_escape isOne
      refine ⟨char :: more, fun rest fuel enough => ?_⟩
      rw [List.length_append, List.length_cons] at enough
      obtain ⟨fuel, rfl⟩ : ∃ less, fuel = less + 1 := ⟨fuel - 1, by omega⟩
      rw [List.cons_append, List.cons_append, List.append_assoc, stringBody]
      simp [isChar, isMore rest fuel (by omega)]
    · cases isOne with
      | @unescaped c plain =>
        obtain ⟨notQuote, notBackslash, printed⟩ := plain
        refine ⟨c :: more, fun rest fuel enough => ?_⟩
        rw [List.length_append, List.length_singleton] at enough
        obtain ⟨fuel, rfl⟩ : ∃ less, fuel = less + 1 := ⟨fuel - 1, by omega⟩
        rw [List.append_assoc, List.singleton_append, stringBody]
        simp [notQuote, notBackslash, not_lt.mpr printed, isMore rest fuel (by omega)]
      | simple => exact absurd ⟨_, rfl⟩ escaped
      | hex => exact absurd ⟨_, rfl⟩ escaped
      | pair => exact absurd ⟨_, rfl⟩ escaped

/-- The quoted text is read as the string, whatever stands behind it. -/
def SpellsString (text : String) (quoted : List Char) : Prop :=
  ∀ rest, string (quoted ++ rest) = some (text, rest)

theorem string_eq_some {s rest : List Char} {text : String} (read : string s = some (text, rest)) :
    ∃ quoted, StringText (StringBody PairedText) quoted ∧ s = quoted ++ rest := by
  cases s with
  | nil => cases read
  | cons c after =>
    simp only [string, expect, Option.bind_eq_bind, Option.bind_eq_some_iff] at read
    obtain ⟨after', quote, ⟨inner, end_⟩, isBody, same⟩ := read
    cases same
    split at quote
    case isTrue isQuote =>
      cases quote
      obtain ⟨body, valid, rfl⟩ := stringBody_eq_some isBody
      exact ⟨_, ⟨valid⟩, by rw [isQuote]; simp⟩
    case isFalse => cases quote

theorem exists_string {quoted : List Char} (valid : StringText (StringBody PairedText) quoted) :
    ∃ text, SpellsString text quoted := by
  obtain ⟨body⟩ := valid
  obtain ⟨text, isText⟩ := exists_stringBody body
  refine ⟨String.ofList text, fun rest => ?_⟩
  rw [List.cons_append, List.append_assoc, List.singleton_append, string]
  simp only [expect, if_true, Option.bind_eq_bind, Option.bind_some]
  rw [isText rest _ (by rw [List.length_append]; omega)]
  rfl

/-- **What is read as a string** spells it. -/
theorem spellsString_of_read {s rest : List Char} {text : String}
    (read : string s = some (text, rest)) :
    ∃ quoted, SpellsString text quoted ∧ s = quoted ++ rest := by
  obtain ⟨quoted, valid, rfl⟩ := string_eq_some read
  obtain ⟨text', spelled⟩ := exists_string valid
  rw [spelled, Option.some.injEq, Prod.mk.injEq] at read
  exact ⟨quoted, read.1 ▸ spelled, rfl⟩

theorem SpellsString.valid {text : String} {quoted : List Char} (spelled : SpellsString text quoted) :
    StringText (StringBody PairedText) quoted := by
  obtain ⟨quoted', valid, same⟩ := string_eq_some (spelled [])
  rw [List.append_nil, List.append_nil] at same
  exact same ▸ valid

end Toard.Json
