/-
**The date texts that the server reads.**

The server makes a `Date` of the timestamp of an event. The texts of the *Date Time String Format*
of the language are fixed: a year of four digits, or a sign and six, up to a time of the day with an
offset. A `Date` reaches 100,000,000 days from the epoch.

A text of another form is left to the engine. The engine of the server goes on by rules of its own,
which a letter right after a number ends, so that it refuses a text whose year has too many digits
before a `T`; here every other text is refused.
-/

import Toard.Library.Calendar
import Toard.Library.Digits

namespace Toard.Server

open Toard.Library

/-- The largest time value of a `Date`. -/
def maxTime : Int := 8640000000000000

/-- `TimeClip`. -/
def timeClip (time : Int) : Option Int :=
  if -maxTime ≤ time ∧ time ≤ maxTime then some time else none

def after (c : Char) : List Char → Option (List Char)
  | [] => none
  | first :: rest => if first = c then some rest else none

/-- `YYYY` or `±YYYYYY`; there is no year `-000000`. -/
def dateYear (s : List Char) : Option (Int × List Char) :=
  match s with
  | '+' :: rest => (fixedNumber 6 rest).map fun read => ((read.1 : Int), read.2)
  | '-' :: rest =>
    match fixedNumber 6 rest with
    | some (n, rest) => if n = 0 then none else some (-(n : Int), rest)
    | none => none
  | _ => (fixedNumber 4 s).map fun read => ((read.1 : Int), read.2)

/-- A part of two digits after a separator, at most `last`. -/
def datePart (separator : Char) (last : Nat) (s : List Char) : Option (Nat × List Char) := do
  let rest ← after separator s
  let (n, rest) ← fixedNumber 2 rest
  if n ≤ last then some (n, rest) else none

def dateOffset (s : List Char) : Option (Option Int) :=
  match s with
  | [] => some none
  | ['Z'] => some (some 0)
  | '+' :: _ => (offset '+' s).map some
  | '-' :: _ => (offset '-' s).map fun minutes => some (-minutes)
  | _ => none
where
  offset (sign : Char) (s : List Char) : Option Int := do
    let (hours, rest) ← datePart sign 23 s
    let (minutes, rest) ← datePart ':' 59 rest
    if rest = [] then some (hours * 60 + minutes) else none

/-- The milliseconds of `HH:mm`, `HH:mm:ss` or `HH:mm:ss.sss`, and what follows. -/
def dateTime (s : List Char) : Option (Int × List Char) := do
  let (hours, rest) ← datePart 'T' 24 s
  let (minutes, rest) ← datePart ':' 59 rest
  let (seconds, rest) ←
    if rest.head? = some ':' then datePart ':' 59 rest else some (0, rest)
  let (millis, rest) ←
    if rest.head? = some '.' then (after '.' rest).bind (fixedNumber 3) else some (0, rest)
  let time := ((hours * 60 + minutes) * 60 + seconds) * 1000 + millis
  -- Midnight may be written as the end of the day.
  if time ≤ 86400000 then some ((time : Int), rest) else none

/-- The day and the time of a text; the offset is none for local time. -/
def dateFields (s : List Char) : Option (Int × Int × Option Int) := do
  let (year, rest) ← dateYear s
  let (month, rest) ← if rest.head? = some '-' then datePart '-' 12 rest else some (1, rest)
  let (day, rest) ← if rest.head? = some '-' then datePart '-' 31 rest else some (1, rest)
  if month = 0 ∨ day = 0 then none
  else
    let days := dayNumber year month day
    if rest = [] then some (days, 0, some 0)
    else
      let (time, rest) ← dateTime rest
      let offset ← dateOffset rest
      some (days, time, offset)

/-- `new Date(text).getTime()`, none for `NaN`; `toUtc` takes a local time to its UTC time. -/
def dateParse (toUtc : Int → Int) (text : String) : Option Int := do
  let (days, time, offset) ← dateFields text.toList
  let ms := days * 86400000 + time
  timeClip (match offset with
    | some minutes => ms - minutes * 60000
    | none => toUtc ms)

example : dateParse id "2024-07-01T02:13:20.123Z" = some 1719800000123 := by decide

end Toard.Server
