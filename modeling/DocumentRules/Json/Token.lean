/-
The tokens of JSON text.

`lexChar` is the step of a machine that reads one character; `lex` runs it over a
text.  A text is refused (`none`) at the first character that no token can contain.

Tokens are kept as they are spelled: what number or what text a token stands for, and whether
it stands for any, is asked where the token is read.

Between its quotes a string is a row of pieces: characters, and units of 16 bits spelled by
`\u` and four hexadecimal digits.  Two units next to each other that are the halves of a
surrogate pair spell one character; every other unit spells the character of its number.  A
half that stands alone spells nothing, so a string with one has no value.
-/
import DocumentRules.Json.Basic

namespace DocumentRules.Json

/-! ### The contents of strings -/

inductive Piece where
  | char (c : Char)
  /-- A number below 65536, spelled by an escape. -/
  | unit (n : Nat)

namespace Piece

/-- The unit is the first half of a surrogate pair. -/
def isHigh (n : Nat) : Bool := 0xd800 ≤ n && n < 0xdc00

/-- The unit is the second half of a surrogate pair. -/
def isLow (n : Nat) : Bool := 0xdc00 ≤ n && n < 0xe000

/-- The character of a surrogate pair. -/
def pair (high low : Nat) : Char := Char.ofNat (0x10000 + (high - 0xd800) * 0x400 + (low - 0xdc00))

/-- The characters that pieces spell, behind those of `done` (last first). -/
def charsAfter? (done : List Char) : List Piece → Option (List Char)
  | [] => some done.reverse
  | .char c :: rest => charsAfter? (c :: done) rest
  | .unit n :: rest =>
    if isHigh n then
      match rest with
      | .unit m :: rest => if isLow m then charsAfter? (pair n m :: done) rest else none
      | _ => none
    else if isLow n then none
    else charsAfter? (Char.ofNat n :: done) rest

def text? (pieces : List Piece) : Option String := (charsAfter? [] pieces).map String.ofList

end Piece

/-! ### Tokens -/

inductive Token where
  | openArray
  | closeArray
  | openObject
  | closeObject
  | comma
  | colon
  | string (pieces : List Piece)
  /-- A number as it is spelled. -/
  | number (chars : List Char)
  /-- `null` or a truth value. -/
  | word (j : Json)

/-- White space between tokens. -/
def isGap (c : Char) : Bool := c == ' ' || c == '\n' || c == '\t' || c == '\r'

/-- Where the machine stands, with what it has read of the current token (last first). -/
inductive LexState where
  | between
  | word (letters : List Char)
  | number (chars : List Char)
  | inString (pieces : List Piece)
  | backslash (pieces : List Piece)
  /-- Hexadecimal digits of an escape: the value so far and how many digits are missing. -/
  | hex (pieces : List Piece) (value missing : Nat)

/-- The value of a hexadecimal digit. -/
def hexValue? (c : Char) : Option Nat :=
  if '0' ≤ c ∧ c ≤ '9' then some (c.toNat - 48)
  else if 'a' ≤ c ∧ c ≤ 'f' then some (c.toNat - 87)
  else if 'A' ≤ c ∧ c ≤ 'F' then some (c.toNat - 55)
  else none

def wordToken? (letters : List Char) : Option Token :=
  if letters = ['n', 'u', 'l', 'l'] then some (.word .null)
  else if letters = ['t', 'r', 'u', 'e'] then some (.word (.bool true))
  else if letters = ['f', 'a', 'l', 's', 'e'] then some (.word (.bool false))
  else none

/-- A nonempty run of digits. -/
def isDigits (cs : List Char) : Bool := !cs.isEmpty && cs.all Char.isDigit

/-- A nonempty run of digits that is `0` or starts with another digit. -/
def isWholePart (cs : List Char) : Bool := isDigits cs && (cs.length == 1 || cs.head? != some '0')

/-- An exponent with its letter; or nothing. -/
def isExponent : List Char → Bool
  | [] => true
  | e :: '+' :: ds => (e == 'e' || e == 'E') && isDigits ds
  | e :: '-' :: ds => (e == 'e' || e == 'E') && isDigits ds
  | e :: ds => (e == 'e' || e == 'E') && isDigits ds

/-- The unsigned text of a number token follows the grammar. -/
def isMagnitude (cs : List Char) : Bool :=
  isWholePart (cs.takeWhile Char.isDigit) &&
    match cs.dropWhile Char.isDigit with
    | '.' :: r => isDigits (r.takeWhile Char.isDigit) && isExponent (r.dropWhile Char.isDigit)
    | r => isExponent r

def numberToken? (chars : List Char) : Option Token :=
  let magnitude := match chars with
    | '-' :: cs => cs
    | cs => cs
  if isMagnitude magnitude then some (.number chars) else none

def isNumberChar (c : Char) : Bool :=
  c.isDigit || c == '.' || c == '-' || c == '+' || c == 'e' || c == 'E'

/-- Read a character between tokens: the tokens it completes and the next state. -/
def lexBetween (c : Char) : Option (List Token × LexState) :=
  if isGap c then some ([], .between)
  else if c = '[' then some ([.openArray], .between)
  else if c = ']' then some ([.closeArray], .between)
  else if c = '{' then some ([.openObject], .between)
  else if c = '}' then some ([.closeObject], .between)
  else if c = ',' then some ([.comma], .between)
  else if c = ':' then some ([.colon], .between)
  else if c = '"' then some ([], .inString [])
  else if c.isDigit || c == '-' then some ([], .number [c])
  else if c.isAlpha then some ([], .word [c])
  else none

/-- The character that a letter after a backslash stands for. -/
def unescape? (c : Char) : Option Char :=
  if c = '"' ∨ c = '\\' ∨ c = '/' then some c
  else if c = 'n' then some '\n'
  else if c = 'r' then some '\r'
  else if c = 't' then some '\t'
  else if c = 'b' then some '\x08'
  else if c = 'f' then some '\x0c'
  else none

/-- Read one character: the tokens it completes and the next state. -/
def lexChar : LexState → Char → Option (List Token × LexState)
  | .between, c => lexBetween c
  | .word letters, c =>
    if c.isAlpha then some ([], .word (c :: letters))
    else do
      let t ← wordToken? letters.reverse
      let (ts, next) ← lexBetween c
      some (t :: ts, next)
  | .number chars, c =>
    if isNumberChar c then some ([], .number (c :: chars))
    else do
      let t ← numberToken? chars.reverse
      let (ts, next) ← lexBetween c
      some (t :: ts, next)
  | .inString pieces, c =>
    if c = '"' then some ([.string pieces.reverse], .between)
    else if c = '\\' then some ([], .backslash pieces)
    else if c.toNat < 0x20 then none
    else some ([], .inString (.char c :: pieces))
  | .backslash pieces, c =>
    if c = 'u' then some ([], .hex pieces 0 4)
    else (unescape? c).map fun d => ([], .inString (.char d :: pieces))
  | .hex pieces value missing, c =>
    (hexValue? c).map fun d =>
      let value := 16 * value + d
      ([], if missing ≤ 1 then .inString (.unit value :: pieces)
        else .hex pieces value (missing - 1))

/-- The tokens that the end of the text completes. -/
def lexEnd : LexState → Option (List Token)
  | .between => some []
  | .word letters => (wordToken? letters.reverse).map ([·])
  | .number chars => (numberToken? chars.reverse).map ([·])
  | _ => none

/-- Read one character behind the tokens so far (last first). -/
def lexStep (s : List Token × LexState) (c : Char) : Option (List Token × LexState) :=
  (lexChar s.2 c).map fun (tokens, next) => (tokens.reverse ++ s.1, next)

def lex (text : List Char) : Option (List Token) := do
  let (tokens, state) ← text.foldlM lexStep ([], .between)
  let last ← lexEnd state
  return tokens.reverse ++ last

end DocumentRules.Json
