/-
Escapes in regular expressions.

A backslash takes the meaning from a sign, or gives one to a letter: a class of characters, a
control character, a character by its code, or a condition on the position.  References back
and classes of Unicode properties are refused.
-/
import DocumentRules.Regex.Pattern
import DocumentRules.Regex.Reader

namespace DocumentRules.Regex.Reader

/-- The characters `. + * ?` and so on, which have a meaning of their own. -/
def isMeta (c : Char) : Bool := "\\.+*?()|[]\x7b\x7d^$#&-~".toList.contains c

/-- A character that a backslash turns into itself. -/
def isEscapable (c : Char) : Bool :=
  isMeta c || (c.toNat < 0x80 && !c.isAlphanum && c != '<' && c != '>')

def hexValue? (c : Char) : Option Nat :=
  if '0' ≤ c ∧ c ≤ '9' then some (c.toNat - 48)
  else if 'a' ≤ c ∧ c ≤ 'f' then some (c.toNat - 87)
  else if 'A' ≤ c ∧ c ≤ 'F' then some (c.toNat - 55)
  else none

def charPattern (c : Char) : Reading Pattern := do
  if (← get).flags.ignoreCase then
    match CharSet.otherCase? (c.toNat, c.toNat) with
    | some r => return .set (CharSet.canonical [(c.toNat, c.toNat), r])
    | none => return .char c
  return .char c

/-- The character of a code, which may be the code of none. -/
def codePattern (invalid : String) (n : Nat) : Reading Pattern :=
  if n < 0xd800 ∨ (0xe000 ≤ n ∧ n ≤ CharSet.maxCodePoint) then charPattern (Char.ofNat n)
  else refuse invalid

/-- `count` hexadecimal digits; the reader stands at the first of them. -/
def hexDigits : (count value : Nat) → Reading Nat
  | 0, value => return value
  | count + 1, value => do
    let c ← current "expected fixed length hexadecimal number, but saw end of pattern first"
    let some d := hexValue? c
      | refuse "expected fixed length hexadecimal number, but got non-hex digit"
    let _ ← advanceAndSkip
    hexDigits count (16 * value + d)

def unclosedCode : String :=
  "expected hexadecimal number, but saw end of pattern before closing brace"

/-- Hexadecimal digits up to a closing brace; the reader stands at the opening one or at a
digit. -/
def hexInBraces : (fuel : Nat) → (digits value : Nat) → Reading Nat
  | 0, _, _ => refuse unclosedCode
  | fuel + 1, digits, value => do
    let c ← next unclosedCode
    if c = '}' then
      let _ ← advanceAndSkip
      if digits = 0 then refuse "expected hexadecimal number in braces, but got no digits"
      return value
    let some d := hexValue? c
      | refuse "expected hexadecimal number in braces, but got non-hex digit"
    hexInBraces fuel (digits + 1) (16 * value + d)

/-- The rest of an escape by code; the reader stands at the letter. -/
def readCode (letter : Char) : Reading Pattern := do
  if (← next "expected hexadecimal number, but saw end of pattern first") = '{' then
    codePattern "got invalid hexadecimal number in braces"
      (← hexInBraces (← get).rest.length 0 0)
  else
    codePattern "got invalid fixed length hexadecimal number"
      (← hexDigits (if letter = 'x' then 2 else if letter = 'u' then 4 else 8) 0)

/-- The letters and hyphens of a named word boundary. -/
def boundaryName : (fuel : Nat) → List Char → Reading (List Char)
  | 0, name => return name
  | fuel + 1, name => do
    match ← current? with
    | some c =>
      if c.isAlpha || c == '-' then
        let _ ← advanceAndSkip
        boundaryName fuel (name ++ [c])
      else return name
    | none => return name

/-- A word boundary `\b`, plain or with a name in braces. -/
def readBoundary : Reading Pattern := do
  if (← current?) != some '{' then return .look .wordBoundary
  -- Braces behind the boundary may also be a count.
  let here ← get
  let first ← next "found start of special word boundary or repetition without an end"
  if !(first.isAlpha || first == '-') then
    set here
    return .look .wordBoundary
  let name := String.ofList (← boundaryName (← get).rest.length [])
  if (← current?) != some '}' then
    refuse "special word boundary assertion is unclosed or has an invalid character"
  let _ ← advance
  if name = "start" then return .look .wordStart
  else if name = "end" then return .look .wordFinish
  else if name = "start-half" then return .look .wordStartHalf
  else if name = "end-half" then return .look .wordFinishHalf
  else refuse "special word boundary assertion is unrecognized"

/-- A class of one letter, if the letter names one. -/
def letterClass? (c : Char) : Option CharSet :=
  if c = 'd' then some .digit
  else if c = 's' then some .space
  else if c = 'w' then some .word
  else if c = 'D' then some (CharSet.complement .digit)
  else if c = 'S' then some (CharSet.complement .space)
  else if c = 'W' then some (CharSet.complement .word)
  else none

/-- The control character of a letter, if it names one. -/
def controlChar? (c : Char) : Option Char :=
  if c = 'a' then some '\x07'
  else if c = 'f' then some '\x0c'
  else if c = 't' then some '\t'
  else if c = 'n' then some '\n'
  else if c = 'r' then some '\r'
  else if c = 'v' then some '\x0b'
  else none

/-- An escape; the reader stands at the backslash. -/
def readEscape : Reading Pattern := do
  let _ ← advance
  let c ← current "saw start of escape sequence, but saw end of pattern before it finished"
  if c.isDigit then refuse "backreferences are not supported"
  if c = 'p' || c = 'P' then refuse "Unicode character classes are not supported"
  if c = 'x' || c = 'u' || c = 'U' then return ← readCode c
  let _ ← advance
  if let some s := letterClass? c then return .set s
  if isEscapable c then return ← charPattern c
  if let some d := controlChar? c then return ← charPattern d
  if c = 'A' then return .look .start
  else if c = 'z' then return .look .finish
  else if c = 'b' then readBoundary
  else if c = 'B' then return .look .notWordBoundary
  else if c = '<' then return .look .wordStart
  else if c = '>' then return .look .wordFinish
  else refuse "unrecognized escape sequence"

end DocumentRules.Regex.Reader
