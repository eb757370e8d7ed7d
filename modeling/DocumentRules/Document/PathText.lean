/-
The written form of paths.

A path is written as its names joined by dots with positions in brackets, such as
`items[2].sku`.  A name that cannot stand bare (empty, `$`, or with one of the
characters `. [ ] " \`) is written in brackets and quotes, where a quote and a backslash
get a backslash in front.  The root is written `$`.

Reading is a scan over the characters.  `Path.scan place text` reads the rest of a path
when the scan stands at `place`; every text that is no path has exactly one
`PathFault`, the first one met.

* `Path.text` — writing;
* `Path.parse` — reading, the other direction.
-/
import DocumentRules.Document.Path

namespace DocumentRules

/-- Why a text is no path. -/
inductive PathFault where
  | emptyStep
  | unbalanced
  | unterminatedQuote
  | badIndex (digits : String)
  | trailingAfterQuote
  | trailingAfterIndex
  deriving DecidableEq

/-- A text that is no path, with the reason. -/
structure MalformedPath where
  text : String
  fault : PathFault
  deriving DecidableEq

def PathFault.message : PathFault → String
  | .emptyStep => "empty step"
  | .unbalanced => "unbalanced index brackets"
  | .unterminatedQuote => "unterminated quoted key"
  | .badIndex digits => "invalid array index '" ++ digits ++ "'"
  | .trailingAfterQuote => "expected '.' or '[' after quoted key"
  | .trailingAfterIndex => "expected '.' or '[' after index"

def MalformedPath.message (e : MalformedPath) : String :=
  "Malformed field path '" ++ e.text ++ "': " ++ e.fault.message

namespace Path

/-! ### Writing -/

/-- The characters that no bare name holds. -/
def isSpecial (c : Char) : Bool := c == '.' || c == '[' || c == ']' || c == '"' || c == '\\'

/-- The name must be written in quotes. -/
def needsQuotes (name : String) : Bool :=
  name.isEmpty || name == "$" || name.toList.any isSpecial

/-- A quote or a backslash gets a backslash in front. -/
def escape : List Char → List Char
  | [] => []
  | c :: cs => if c = '"' ∨ c = '\\' then '\\' :: c :: escape cs else c :: escape cs

def quoted (name : String) : List Char := ['[', '"'] ++ escape name.toList ++ ['"', ']']

/-- A step as the first of a path. -/
def firstChars : Step → List Char
  | .key name => if needsQuotes name then quoted name else name.toList
  | .index i => ['['] ++ Nat.toDigits 10 i ++ [']']

/-- A step after another one: a bare name follows a dot. -/
def laterChars : Step → List Char
  | .key name => if needsQuotes name then quoted name else '.' :: name.toList
  | .index i => ['['] ++ Nat.toDigits 10 i ++ [']']

def chars : Path → List Char
  | [] => ['$']
  | s :: rest => firstChars s ++ rest.flatMap laterChars

/-- The written form. -/
def text (p : Path) : String := String.ofList (chars p)

def stepText (s : Step) : String := String.ofList (firstChars s)

/-! ### Reading -/

/-- A position: digits, perhaps after a plus sign, with a value below `2 ^ 64`. -/
def readIndex? (digits : List Char) : Option Nat :=
  let ds := match digits with
    | '+' :: ds => ds
    | ds => ds
  if ds.isEmpty || !ds.all Char.isDigit then none
  else
    let n := ds.foldl (fun n c => 10 * n + (c.toNat - '0'.toNat)) 0
    if n < UInt64.size then some n else none

/-- Where a scan stands, with what it has read of the current step. -/
inductive Place where
  | start
  | afterDot
  | inKey (name : List Char)
  | inIndex (digits : List Char)
  | inQuotes (name : List Char)
  | afterBackslash (name : List Char)
  | afterQuotes (name : List Char)
  | afterIndex
  | afterQuotedKey

/-- Read the rest of a path from a place on. -/
def scan : Place → List Char → Except PathFault Path
  | .start, [] => .error .emptyStep
  | .start, c :: cs =>
    if c = '.' then .error .emptyStep
    else if c = '[' then scan (.inIndex []) cs
    else if c = ']' then .error .unbalanced
    else scan (.inKey [c]) cs
  | .afterDot, [] => .error .emptyStep
  | .afterDot, c :: cs =>
    if c = '.' ∨ c = '[' then .error .emptyStep
    else if c = ']' then .error .unbalanced
    else scan (.inKey [c]) cs
  | .inKey name, [] => .ok [.key (String.ofList name)]
  | .inKey name, c :: cs =>
    if c = '.' then (scan .afterDot cs).map (Step.key (String.ofList name) :: ·)
    else if c = '[' then (scan (.inIndex []) cs).map (Step.key (String.ofList name) :: ·)
    else if c = ']' then .error .unbalanced
    else scan (.inKey (name ++ [c])) cs
  | .inIndex _, [] => .error .unbalanced
  | .inIndex digits, c :: cs =>
    if c = ']' then
      match readIndex? digits with
      | some i => (scan .afterIndex cs).map (Step.index i :: ·)
      | none => .error (.badIndex (String.ofList digits))
    else if c = '[' then .error .unbalanced
    -- A quote opens a name only directly behind the bracket.
    else if c = '"' ∧ digits = [] then scan (.inQuotes []) cs
    else scan (.inIndex (digits ++ [c])) cs
  | .inQuotes _, [] => .error .unterminatedQuote
  | .inQuotes name, c :: cs =>
    if c = '"' then scan (.afterQuotes name) cs
    else if c = '\\' then scan (.afterBackslash name) cs
    else scan (.inQuotes (name ++ [c])) cs
  | .afterBackslash _, [] => .error .unterminatedQuote
  | .afterBackslash name, c :: cs => scan (.inQuotes (name ++ [c])) cs
  | .afterQuotes _, [] => .error .unbalanced
  | .afterQuotes name, c :: cs =>
    if c = ']' then (scan .afterQuotedKey cs).map (Step.key (String.ofList name) :: ·)
    else .error .unbalanced
  | .afterIndex, [] => .ok []
  | .afterIndex, c :: cs =>
    if c = '.' then scan .afterDot cs
    else if c = '[' then scan (.inIndex []) cs
    else .error .trailingAfterIndex
  | .afterQuotedKey, [] => .ok []
  | .afterQuotedKey, c :: cs =>
    if c = '.' then scan .afterDot cs
    else if c = '[' then scan (.inIndex []) cs
    else .error .trailingAfterQuote

def parse (text : String) : Except MalformedPath Path :=
  if text = "$" then .ok root
  else match scan .start text.toList with
    | .ok p => .ok p
    | .error fault => .error ⟨text, fault⟩

end Path

end DocumentRules
