/-
Timestamps.

A timestamp is a date, the letter T or a blank, a time of day and an offset from universal
time: `2024-01-31T10:00:00.5+02:00`.  White space may stand before every number and every
separator; the offset is the letter Z, the word UTC, or a sign with two digits for the hours
and two for the minutes.  The day in universal time, which the offset may shift to the day
before or after, must be a day of the calendar too.

Records carry timestamps that nothing here computes with, so all that matters is whether a
text is one.
-/
import DocumentRules.Calendar.Date
import DocumentRules.Json.Basic

namespace DocumentRules.Timestamp

/-- A character, perhaps behind white space. -/
def readMark? (c : Char) (text : List Char) : Option (List Char) :=
  match Text.trimStart text with
  | c' :: rest => if c = c' then some rest else none
  | [] => none

/-- A number of one or two digits that is not too large, perhaps behind white space. -/
def readUpTo? (limit : Nat) (text : List Char) : Option (Nat × List Char) :=
  match Date.readNumber? (some 2) (Text.trimStart text) with
  | some (n, rest) => if n ≤ limit then some (n, rest) else none
  | none => none

def readDate? (text : List Char) : Option (Date × List Char) := do
  let (year, text) ← Date.readYear? (Text.trimStart text)
  let text ← readMark? '-' text
  let (month, text) ← readUpTo? 12 text
  let text ← readMark? '-' text
  let (day, text) ← readUpTo? 31 text
  let date ← Date.of? year month day
  return (date, text)

/-- What separates the date from the time. -/
def readSeparator? : List Char → Option (List Char)
  | 'T' :: rest | 't' :: rest | ' ' :: rest => some rest
  | _ => none

def readFraction? : List Char → Option (List Char)
  | '.' :: rest => (Date.readNumber? none rest).map (·.2)
  | text => some text

/-- A time of day, in whole seconds since midnight; a leap second counts for the one before. -/
def readTime? (text : List Char) : Option (Nat × List Char) := do
  let (hour, text) ← readUpTo? 23 text
  let text ← readMark? ':' text
  let (minute, text) ← readUpTo? 59 text
  let text ← readMark? ':' text
  let (second, text) ← readUpTo? 60 text
  let text ← readFraction? text
  return (3600 * hour + 60 * minute + min second 59, text)

/-- Two digits that make a number up to a limit. -/
def readTwoDigits? (limit : Nat) : List Char → Option (Nat × List Char)
  | a :: b :: rest =>
    let n := Numeral.natValue [a, b]
    if a.isDigit && b.isDigit && n ≤ limit then some (n, rest) else none
  | _ => none

/-- An offset of less than a day from universal time, in seconds. -/
def readOffset? : List Char → Option (Int × List Char)
  | 'Z' :: rest | 'z' :: rest => some (0, rest)
  | a :: rest =>
    if a = '+' ∨ a = '-' ∨ a = '\u2212' then do
      let (hours, rest) ← readTwoDigits? 23 rest
      let (minutes, rest) ← readTwoDigits? 59 (rest.dropWhile fun c => c == ':' || Text.isBlank c)
      let offset : Int := 3600 * hours + 60 * minutes
      return (if a = '+' then offset else -offset, rest)
    else if ((a :: rest.take 2).map Char.toUpper) = ['U', 'T', 'C'] then some (0, rest.drop 2)
    else none
  | [] => none

/-- The day in universal time of a local date and time is a day of the calendar. -/
def isInCalendar (date : Date) (seconds : Nat) (offset : Int) : Bool :=
  let universal : Int := seconds - offset
  if universal < 0 then date != Date.first
  else if 86400 ≤ universal then date != Date.last
  else true

def isText (s : String) : Bool :=
  ((do
    let (date, text) ← readDate? s.toList
    let text ← readSeparator? text
    let (seconds, text) ← readTime? text
    let (offset, text) ← readOffset? (Text.trimStart text)
    if (Text.trimStart text).isEmpty then return isInCalendar date seconds offset
    else none) : Option Bool) == some true

def ofJson? : Json → Option String
  | .string s => if isText s then some s else none
  | _ => none

end DocumentRules.Timestamp
