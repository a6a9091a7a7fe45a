/-
**The grammar of JSON texts.**

The grammar of the standard, as sets of texts. What counts as a number and what counts as the body
of a string are parameters, so that a stricter and a looser reading of either are two instances.

* `NumberText`: digits without leading zeros, and digits after a point or an exponent.
* `CharText`, `PairedText`: the characters of a string; the standard has any four hexadecimal
  digits after `\u`, the stricter rule only what encodes a character.
* `ValueText`, `JsonText`: values, and a value among blanks.
* **`JsonText.mono`**: larger parameters, more texts. **`stringBody_of_paired`**: the stricter
  strings are strings of the standard.
-/

import Mathlib.Data.List.Basic

namespace Toard.Library

/-- Blanks, any number of them. -/
def BlankText (s : List Char) : Prop := ∀ c ∈ s, c = ' ' ∨ c = '\t' ∨ c = '\n' ∨ c = '\r'

theorem blankText_nil : BlankText [] := fun _ among => absurd among List.not_mem_nil

theorem BlankText.append {s t : List Char} (blank : BlankText s) (blank' : BlankText t) :
    BlankText (s ++ t) := by
  intro c among
  rcases List.mem_append.mp among with left | right
  · exact blank c left
  · exact blank' c right

/-! ### Numbers -/

/-- One digit or more. -/
def DigitsText (s : List Char) : Prop := s ≠ [] ∧ ∀ c ∈ s, c.isDigit = true

/-- A zero, or digits that do not begin with one. -/
inductive IntText : List Char → Prop
  | zero : IntText ['0']
  | nonzero {c : Char} {ds : List Char} : c.isDigit = true → c ≠ '0' →
      (∀ d ∈ ds, d.isDigit = true) → IntText (c :: ds)

inductive FractionText : List Char → Prop
  | none : FractionText []
  | point {ds : List Char} : DigitsText ds → FractionText ('.' :: ds)

inductive ExponentText : List Char → Prop
  | none : ExponentText []
  | exponent {c : Char} {sign ds : List Char} : c = 'e' ∨ c = 'E' →
      sign = [] ∨ sign = ['+'] ∨ sign = ['-'] → DigitsText ds → ExponentText (c :: (sign ++ ds))

/-- A number: a minus sign or none, and the three parts. -/
inductive NumberText : List Char → Prop
  | mk {minus whole fraction exponent : List Char} : minus = [] ∨ minus = ['-'] → IntText whole →
      FractionText fraction → ExponentText exponent →
      NumberText (minus ++ whole ++ fraction ++ exponent)

/-! ### Strings -/

def HexDigit (c : Char) : Prop :=
  ('0' ≤ c ∧ c ≤ '9') ∨ ('a' ≤ c ∧ c ≤ 'f') ∨ ('A' ≤ c ∧ c ≤ 'F')

/-- A character that stands for itself. -/
def Unescaped (c : Char) : Prop := c ≠ '"' ∧ c ≠ '\\' ∧ 0x20 ≤ c.toNat

/-- The letters after a backslash. -/
def SimpleEscape (c : Char) : Prop := c ∈ ['"', '\\', '/', 'b', 'f', 'n', 'r', 't']

/-- One character of a string. -/
inductive CharText : List Char → Prop
  | unescaped {c : Char} : Unescaped c → CharText [c]
  | simple {c : Char} : SimpleEscape c → CharText ['\\', c]
  | hex {a b c d : Char} : HexDigit a → HexDigit b → HexDigit c → HexDigit d →
      CharText ['\\', 'u', a, b, c, d]

/-- The first two digits of the first half of a surrogate pair: D8 to DB. -/
def HighSurrogate (a b : Char) : Prop :=
  (a = 'd' ∨ a = 'D') ∧ (('8' ≤ b ∧ b ≤ '9') ∨ ('a' ≤ b ∧ b ≤ 'b') ∨ ('A' ≤ b ∧ b ≤ 'B'))

/-- The first two digits of its second half: DC to DF. -/
def LowSurrogate (a b : Char) : Prop :=
  (a = 'd' ∨ a = 'D') ∧ (('c' ≤ b ∧ b ≤ 'f') ∨ ('C' ≤ b ∧ b ≤ 'F'))

/-- One character, where the halves of a surrogate pair come together. -/
inductive PairedText : List Char → Prop
  | unescaped {c : Char} : Unescaped c → PairedText [c]
  | simple {c : Char} : SimpleEscape c → PairedText ['\\', c]
  | hex {a b c d : Char} : HexDigit a → HexDigit b → HexDigit c → HexDigit d →
      ¬ HighSurrogate a b → ¬ LowSurrogate a b → PairedText ['\\', 'u', a, b, c, d]
  | pair {a b c d a' b' c' d' : Char} : HexDigit a → HexDigit b → HexDigit c → HexDigit d →
      HexDigit a' → HexDigit b' → HexDigit c' → HexDigit d' → HighSurrogate a b →
      LowSurrogate a' b' → PairedText ['\\', 'u', a, b, c, d, '\\', 'u', a', b', c', d']

/-- The characters of a string, one after the other. -/
inductive StringBody (char : List Char → Prop) : List Char → Prop
  | nil : StringBody char []
  | cons {one rest : List Char} : char one → StringBody char rest → StringBody char (one ++ rest)

/-- The characters between quotes. -/
inductive StringText (body : List Char → Prop) : List Char → Prop
  | mk {s : List Char} : body s → StringText body ('"' :: (s ++ ['"']))

/-- A key of an object with its colon, and the blanks around the key. -/
inductive KeyText (body : List Char → Prop) : List Char → Prop
  | mk {before key after : List Char} : BlankText before → StringText body key → BlankText after →
      KeyText body (before ++ key ++ after ++ [':'])

/-! ### Values -/

section Values

variable (number body : List Char → Prop)

mutual

/-- A value without blanks around it. -/
inductive ValueText : List Char → Prop
  | null : ValueText ['n', 'u', 'l', 'l']
  | true : ValueText ['t', 'r', 'u', 'e']
  | false : ValueText ['f', 'a', 'l', 's', 'e']
  | number {s : List Char} : number s → ValueText s
  | string {s : List Char} : StringText body s → ValueText s
  | emptyArray {blank : List Char} : BlankText blank → ValueText ('[' :: (blank ++ [']']))
  | array {items : List Char} : ItemsText items → ValueText ('[' :: (items ++ [']']))
  | emptyObject {blank : List Char} : BlankText blank → ValueText ('\x7b' :: (blank ++ ['\x7d']))
  | object {members : List Char} : MembersText members →
      ValueText ('\x7b' :: (members ++ ['\x7d']))

/-- The values of an array, with commas between them. -/
inductive ItemsText : List Char → Prop
  | last {before v after : List Char} : BlankText before → ValueText v → BlankText after →
      ItemsText (before ++ v ++ after)
  | cons {before v after rest : List Char} : BlankText before → ValueText v → BlankText after →
      ItemsText rest → ItemsText (before ++ v ++ after ++ ',' :: rest)

/-- The members of an object, with commas between them. -/
inductive MembersText : List Char → Prop
  | last {key before v after : List Char} : KeyText body key → BlankText before → ValueText v →
      BlankText after → MembersText (key ++ before ++ v ++ after)
  | cons {key before v after rest : List Char} : KeyText body key → BlankText before →
      ValueText v → BlankText after → MembersText rest →
      MembersText (key ++ before ++ v ++ after ++ ',' :: rest)

end

/-- A text: one value, and nothing but blanks around it. -/
inductive JsonText : List Char → Prop
  | mk {before v after : List Char} : BlankText before → ValueText number body v →
      BlankText after → JsonText (before ++ v ++ after)

end Values

/-! ### Larger parameters -/

section Texts

variable {number number' body body' : List Char → Prop}

theorem StringText.mono (bodies : ∀ s, body s → body' s) {s : List Char}
    (text : StringText body s) : StringText body' s := by
  obtain ⟨inner⟩ := text
  exact ⟨bodies _ inner⟩

theorem KeyText.mono (bodies : ∀ s, body s → body' s) {s : List Char} (key : KeyText body s) :
    KeyText body' s := by
  obtain ⟨before, text, after⟩ := key
  exact ⟨before, text.mono bodies, after⟩

mutual

theorem ValueText.mono (numbers : ∀ s, number s → number' s) (bodies : ∀ s, body s → body' s) :
    ∀ {s : List Char}, ValueText number body s → ValueText number' body' s
  | _, .null => .null
  | _, .true => .true
  | _, .false => .false
  | _, .number text => .number (numbers _ text)
  | _, .string text => .string (text.mono bodies)
  | _, .emptyArray blank => .emptyArray blank
  | _, .array items => .array (items.mono numbers bodies)
  | _, .emptyObject blank => .emptyObject blank
  | _, .object members => .object (members.mono numbers bodies)

theorem ItemsText.mono (numbers : ∀ s, number s → number' s) (bodies : ∀ s, body s → body' s) :
    ∀ {s : List Char}, ItemsText number body s → ItemsText number' body' s
  | _, .last before v after => .last before (v.mono numbers bodies) after
  | _, .cons before v after rest =>
    .cons before (v.mono numbers bodies) after (rest.mono numbers bodies)

theorem MembersText.mono (numbers : ∀ s, number s → number' s) (bodies : ∀ s, body s → body' s) :
    ∀ {s : List Char}, MembersText number body s → MembersText number' body' s
  | _, .last key before v after =>
    .last (key.mono bodies) before (v.mono numbers bodies) after
  | _, .cons key before v after rest =>
    .cons (key.mono bodies) before (v.mono numbers bodies) after (rest.mono numbers bodies)

end

/-- **Larger parameters, more texts.** -/
theorem JsonText.mono (numbers : ∀ s, number s → number' s) (bodies : ∀ s, body s → body' s)
    {s : List Char} (text : JsonText number body s) : JsonText number' body' s := by
  obtain ⟨before, v, after⟩ := text
  exact ⟨before, v.mono numbers bodies, after⟩

end Texts

theorem StringBody.append {char : List Char → Prop} {s t : List Char} (first : StringBody char s)
    (second : StringBody char t) : StringBody char (s ++ t) := by
  induction first with
  | nil => exact second
  | cons one _ ih =>
    rw [List.append_assoc]
    exact .cons one ih

theorem StringBody.single {char : List Char → Prop} {s : List Char} (one : char s) :
    StringBody char s := by
  have body := StringBody.cons one .nil
  rwa [List.append_nil] at body

/-- **The stricter strings are strings of the standard**: a pair is two characters there. -/
theorem stringBody_of_paired {s : List Char} (body : StringBody PairedText s) :
    StringBody CharText s := by
  induction body with
  | nil => exact .nil
  | cons one _ ih =>
    refine StringBody.append ?_ ih
    cases one with
    | unescaped plain => exact .single (.unescaped plain)
    | simple letter => exact .single (.simple letter)
    | hex a b c d _ _ => exact .single (.hex a b c d)
    | pair a b c d a' b' c' d' _ _ =>
      exact StringBody.cons (CharText.hex a b c d) (.single (.hex a' b' c' d'))

end Toard.Library
