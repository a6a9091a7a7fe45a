/-
**The JSON value, its printer and its parser (`json.rs`).**

The collector carries its own small JSON module: object keys keep their order and a number keeps
its source token, so that reading a file and writing it back never changes what it means. The
queue stores the text `toPretty` prints and reads it back with `parse`.
-/

import Mathlib.Data.List.DropRight

namespace Toard.Json

/-- A JSON value as `json.rs` holds it. -/
inductive Value where
  | null
  | bool (flag : Bool)
  /-- The source token, unparsed. -/
  | number (token : String)
  | string (text : String)
  | array (items : List Value)
  /-- The entries in insertion order; a key may occur twice. -/
  | object (entries : List (String × Value))

namespace Value

def get (key : String) : Value → Option Value
  | .object entries => (entries.find? fun entry => entry.1 == key).map Prod.snd
  | _ => none

def asStr : Value → Option String
  | .string text => some text
  | _ => none

end Value

/-! ### Printing -/

/-- The hexadecimal digit `format!("{:x}")` prints. -/
def hexDigit (digit : Nat) : Char :=
  if digit < 10 then Char.ofNat (48 + digit) else Char.ofNat (87 + digit)

def writeChar (c : Char) : List Char :=
  match c with
  | '"' => ['\\', '"']
  | '\\' => ['\\', '\\']
  | '\n' => ['\\', 'n']
  | '\r' => ['\\', 'r']
  | '\t' => ['\\', 't']
  | '\x08' => ['\\', 'b']
  | '\x0c' => ['\\', 'f']
  | c => if c.toNat < 0x20 then
      ['\\', 'u', '0', '0', hexDigit (c.toNat / 16), hexDigit (c.toNat % 16)]
    else [c]

def writeString (text : String) : List Char :=
  '"' :: (text.toList.flatMap writeChar ++ ['"'])

def newLine (indent : Nat) : List Char :=
  '\n' :: List.replicate (2 * indent) ' '

mutual

def writeValue (indent : Nat) : Value → List Char
  | .null => ['n', 'u', 'l', 'l']
  | .bool true => ['t', 'r', 'u', 'e']
  | .bool false => ['f', 'a', 'l', 's', 'e']
  | .number token => token.toList
  | .string text => writeString text
  | .array [] => ['[', ']']
  | .array (item :: items) =>
    '[' :: (newLine (indent + 1) ++ writeValue (indent + 1) item ++ writeItems indent items)
  | .object [] => ['\x7b', '\x7d']
  | .object ((key, item) :: entries) =>
    '\x7b' :: (newLine (indent + 1) ++ writeString key ++ [':', ' ']
      ++ writeValue (indent + 1) item ++ writeEntries indent entries)

def writeItems (indent : Nat) : List Value → List Char
  | [] => newLine indent ++ [']']
  | item :: items =>
    ',' :: (newLine (indent + 1) ++ writeValue (indent + 1) item ++ writeItems indent items)

def writeEntries (indent : Nat) : List (String × Value) → List Char
  | [] => newLine indent ++ ['\x7d']
  | (key, item) :: entries =>
    ',' :: (newLine (indent + 1) ++ writeString key ++ [':', ' ']
      ++ writeValue (indent + 1) item ++ writeEntries indent entries)

end

def toPretty (value : Value) : String :=
  String.ofList (writeValue 0 value ++ ['\n'])

/-! ### Parsing -/

def isBlank (c : Char) : Bool :=
  c == ' ' || c == '\t' || c == '\n' || c == '\r'

def skipWs (s : List Char) : List Char :=
  s.dropWhile isBlank

def expect (c : Char) : List Char → Option (List Char)
  | got :: rest => if got = c then some rest else none
  | [] => none

def literal : List Char → List Char → Option (List Char)
  | [], s => some s
  | c :: word, s => (expect c s).bind (literal word)

/-- `char::to_digit(16)`. -/
def toDigit16 (c : Char) : Option Nat :=
  if '0' ≤ c ∧ c ≤ '9' then some (c.toNat - 48)
  else if 'a' ≤ c ∧ c ≤ 'f' then some (c.toNat - 87)
  else if 'A' ≤ c ∧ c ≤ 'F' then some (c.toNat - 55)
  else none

def hex4 (a b c d : Char) : Option Nat := do
  let a ← toDigit16 a
  let b ← toDigit16 b
  let c ← toDigit16 c
  let d ← toDigit16 d
  some (((a * 16 + b) * 16 + c) * 16 + d)

/-- `char::from_u32`. -/
def fromU32 (code : Nat) : Option Char :=
  if h : code.isValidChar then some (Char.ofNatAux code h) else none

def simpleEscape : Char → Option Char
  | '"' => some '"'
  | '\\' => some '\\'
  | '/' => some '/'
  | 'b' => some '\x08'
  | 'f' => some '\x0c'
  | 'n' => some '\n'
  | 'r' => some '\r'
  | 't' => some '\t'
  | _ => none

/-- The low half of a surrogate pair after its high half `hi`. -/
def surrogate (hi : Nat) : List Char → Option (Char × List Char)
  | '\\' :: 'u' :: a :: b :: c :: d :: rest => do
    let lo ← hex4 a b c d
    if 0xDC00 ≤ lo ∧ lo < 0xE000 then
      let char ← fromU32 (0x10000 + (hi - 0xD800) * 1024 + (lo - 0xDC00))
      some (char, rest)
    else none
  | _ => none

def escape : List Char → Option (Char × List Char)
  | 'u' :: a :: b :: c :: d :: rest => do
    let hi ← hex4 a b c d
    if 0xD800 ≤ hi ∧ hi < 0xDC00 then surrogate hi rest
    else
      let char ← fromU32 hi
      some (char, rest)
  | c :: rest => (simpleEscape c).map fun char => (char, rest)
  | [] => none

/-- The body of a string after its opening quote, with what follows the closing one. -/
def stringBody : Nat → List Char → Option (List Char × List Char)
  | 0, _ => none
  | _ + 1, [] => none
  | fuel + 1, c :: rest =>
    if c = '"' then some ([], rest)
    else if c = '\\' then do
      let (char, rest) ← escape rest
      let (text, rest) ← stringBody fuel rest
      some (char :: text, rest)
    else if c.toNat < 0x20 then none
    else do
      let (text, rest) ← stringBody fuel rest
      some (c :: text, rest)

theorem hex4_control : ∀ code < 0x20,
    hex4 '0' '0' (hexDigit (code / 16)) (hexDigit (code % 16)) = some code := by
  decide

theorem fromU32_toNat (c : Char) : fromU32 c.toNat = some c := by
  have valid : c.toNat.isValidChar := c.valid
  rw [fromU32, dif_pos valid]
  rfl

theorem escape_control {c : Char} (control : c.toNat < 0x20) (rest : List Char) :
    escape ('u' :: '0' :: '0' :: hexDigit (c.toNat / 16) :: hexDigit (c.toNat % 16) :: rest)
      = some (c, rest) := by
  have low : ¬ (0xD800 ≤ c.toNat ∧ c.toNat < 0xDC00) := by omega
  simp [escape, hex4_control c.toNat control, fromU32_toNat, low]

/-- **One escaped character is read back as itself.** -/
theorem stringBody_writeChar (c : Char) {fuel : Nat} {s text rest : List Char}
    (read : stringBody fuel s = some (text, rest)) :
    stringBody (fuel + 1) (writeChar c ++ s) = some (c :: text, rest) := by
  unfold writeChar
  split
  case h_8 quote slash _ _ _ _ _ =>
    split
    case isTrue control => simp [stringBody, escape_control control, read]
    case isFalse printable =>
      rw [List.singleton_append, stringBody, if_neg quote, if_neg slash, if_neg printable, read]
      rfl
  all_goals simp [stringBody, escape, simpleEscape, read]

def string (s : List Char) : Option (String × List Char) := do
  let rest ← expect '"' s
  let (text, rest) ← stringBody (rest.length + 1) rest
  some (String.ofList text, rest)

def digits (s : List Char) : List Char × List Char :=
  (s.takeWhile Char.isDigit, s.dropWhile Char.isDigit)

def minusPart : List Char → List Char × List Char
  | '-' :: rest => (['-'], rest)
  | s => ([], s)

def fractionPart : List Char → List Char × List Char
  | '.' :: rest => ('.' :: (digits rest).1, (digits rest).2)
  | s => ([], s)

def signPart : List Char → List Char × List Char
  | '+' :: rest => (['+'], rest)
  | '-' :: rest => (['-'], rest)
  | s => ([], s)

def exponentPart : List Char → List Char × List Char
  | c :: rest =>
    if c = 'e' ∨ c = 'E' then
      (c :: ((signPart rest).1 ++ (digits (signPart rest).2).1), (digits (signPart rest).2).2)
    else ([], c :: rest)
  | [] => ([], [])

def scanNumber (s : List Char) : List Char × List Char :=
  let minus := minusPart s
  let whole := digits minus.2
  let fraction := fractionPart whole.2
  let exponent := exponentPart fraction.2
  (minus.1 ++ whole.1 ++ fraction.1 ++ exponent.1, exponent.2)

def number (s : List Char) : Option (Value × List Char) :=
  let (token, rest) := scanNumber s
  if token = [] ∨ token = ['-'] then none
  else some (.number (String.ofList token), rest)

mutual

def value : Nat → List Char → Option (Value × List Char)
  | 0, _ => none
  | fuel + 1, s =>
    match skipWs s with
    | '\x7b' :: rest =>
      match skipWs rest with
      | '\x7d' :: rest => some (.object [], rest)
      | rest => (objectLoop fuel rest []).map fun parsed => (.object parsed.1, parsed.2)
    | '[' :: rest =>
      match skipWs rest with
      | ']' :: rest => some (.array [], rest)
      | rest => (arrayLoop fuel rest []).map fun parsed => (.array parsed.1, parsed.2)
    | '"' :: rest => (string ('"' :: rest)).map fun parsed => (.string parsed.1, parsed.2)
    | 't' :: rest => (literal ['t', 'r', 'u', 'e'] ('t' :: rest)).map (Prod.mk (.bool true))
    | 'f' :: rest => (literal ['f', 'a', 'l', 's', 'e'] ('f' :: rest)).map (Prod.mk (.bool false))
    | 'n' :: rest => (literal ['n', 'u', 'l', 'l'] ('n' :: rest)).map (Prod.mk .null)
    | c :: rest => if c = '-' ∨ c.isDigit then number (c :: rest) else none
    | [] => none

def objectLoop : Nat → List Char → List (String × Value)
    → Option (List (String × Value) × List Char)
  | 0, _, _ => none
  | fuel + 1, s, entries =>
    match string (skipWs s) with
    | none => none
    | some (key, rest) =>
      match expect ':' (skipWs rest) with
      | none => none
      | some rest =>
        match value fuel rest with
        | none => none
        | some (item, rest) =>
          match skipWs rest with
          | ',' :: rest => objectLoop fuel rest (entries ++ [(key, item)])
          | '\x7d' :: rest => some (entries ++ [(key, item)], rest)
          | _ => none

def arrayLoop : Nat → List Char → List Value → Option (List Value × List Char)
  | 0, _, _ => none
  | fuel + 1, s, items =>
    match value fuel s with
    | none => none
    | some (item, rest) =>
      match skipWs rest with
      | ',' :: rest => arrayLoop fuel rest (items ++ [item])
      | ']' :: rest => some (items ++ [item], rest)
      | _ => none

end

def parse (input : String) : Option Value :=
  match value (2 * input.toList.length + 2) (skipWs input.toList) with
  | some (parsed, rest) => if skipWs rest = [] then some parsed else none
  | none => none

end Toard.Json
