/-
The reader of regular expressions.

A reader stands somewhere in a text, with the flags in force and the groups seen so far.  A
`Reading` is a step that moves the reader or refuses the text and says why; white space and
comments are skipped where the flags say so.

Flags: `i` ignores the case of ASCII letters, `m` lets `^` and `$` match at lines, `s` lets
the dot match a line feed, `R` counts a carriage return as a line break, `U` swaps greedy
and lazy repetition, `x` ignores white space and comments, and `u` changes nothing.
-/
import DocumentRules.Text.Classes

namespace DocumentRules.Regex

structure Flags where
  ignoreCase : Bool := false
  multiLine : Bool := false
  dotMatchesAll : Bool := false
  swapGreed : Bool := false
  lineBreaks : Bool := false
  ignoreBlanks : Bool := false

structure Reader where
  rest : List Char
  flags : Flags := {}
  /-- The number of the next group; group zero is the whole match. -/
  nextGroup : Nat := 1
  names : List (List Char) := []
  depth : Nat := 0

/-- A reading step, which may refuse with a reason. -/
abbrev Reading := StateT Reader (Except String)

/-- How deep groups and trees may be nested. -/
def nestLimit : Nat := 50

namespace Reader

def refuse {α : Type} (reason : String) : Reading α := fun _ => .error reason

/-- The current character, if the text is not at its end. -/
def current? : Reading (Option Char) := return (← get).rest.head?

/-- The character after the current one. -/
def ahead? : Reading (Option Char) := return ((← get).rest.drop 1).head?

/-- The current character; refuses at the end. -/
def current (atEnd : String) : Reading Char := do
  match ← current? with
  | some c => return c
  | none => refuse atEnd

/-- Move on; false if the text is then at its end. -/
def advance : Reading Bool :=
  modifyGet fun r => (!(r.rest.drop 1).isEmpty, { r with rest := r.rest.drop 1 })

/-- The text without white space and comments at its front. -/
def skipBlanks : (inComment : Bool) → List Char → List Char
  | _, [] => []
  | true, c :: cs => skipBlanks (c != '\n') cs
  | false, c :: cs =>
    if Text.isBlank c then skipBlanks false cs
    else if c = '#' then skipBlanks true cs
    else c :: cs

/-- Skip white space and comments, if the flags say so. -/
def skip : Reading Unit := modify fun r =>
  if r.flags.ignoreBlanks then { r with rest := skipBlanks false r.rest } else r

/-- Move on and skip; false if the text is then at its end. -/
def advanceAndSkip : Reading Bool := do
  if !(← advance) then return false
  skip
  return (← current?).isSome

/-- Move on and skip to a character; refuses at the end. -/
def next (atEnd : String) : Reading Char := do
  let _ ← advanceAndSkip
  current atEnd

/-- The first character behind white space, where a comment sign is skipped once. -/
def firstVisible : (inComment : Bool) → List Char → Option Char
  | _, [] => none
  | inComment, c :: cs =>
    if Text.isBlank c then firstVisible inComment cs
    else if !inComment && c = '#' then firstVisible true cs
    else some c

/-- The next character that is not skipped. -/
def aheadVisible? : Reading (Option Char) := do
  let r ← get
  let behind := r.rest.drop 1
  return if r.flags.ignoreBlanks then (firstVisible false behind).or behind.head?
    else behind.head?

/-- Read a given text, if it stands here. -/
def take? (expected : List Char) : Reading Bool := modifyGet fun r =>
  if expected.isPrefixOf r.rest then (true, { r with rest := r.rest.drop expected.length })
  else (false, r)

end Reader

end DocumentRules.Regex
