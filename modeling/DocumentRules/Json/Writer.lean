/-
Compact JSON text.

No white space, entries in the order given, numbers in the style `Numeral.json`.  In
strings only the quote, the backslash and the characters below U+0020 are escaped.
-/
import DocumentRules.Json.Basic

namespace DocumentRules.Json

/-- A character inside a string. -/
def escapeChar (c : Char) : List Char :=
  if c = '"' then ['\\', '"']
  else if c = '\\' then ['\\', '\\']
  else if c = '\n' then ['\\', 'n']
  else if c = '\r' then ['\\', 'r']
  else if c = '\t' then ['\\', 't']
  else if c = '\x08' then ['\\', 'b']
  else if c = '\x0c' then ['\\', 'f']
  else if c.toNat < 0x20 then
    ['\\', 'u', '0', '0', Nat.digitChar (c.toNat / 16), Nat.digitChar (c.toNat % 16)]
  else [c]

def stringChars (s : String) : List Char := '"' :: (s.toList.flatMap escapeChar ++ ['"'])

/-- The digits of an integer, with a minus sign in front if it is negative. -/
def integerChars (i : Int) : List Char :=
  if i < 0 then '-' :: Nat.toDigits 10 i.natAbs else Nat.toDigits 10 i.natAbs

/-- The characters of a number that is not an integer; those not finite are null. -/
def realChars (x : Binary64) : List Char := (Numeral.write Numeral.json x).toList

mutual

def chars : Json → List Char
  | .null => ['n', 'u', 'l', 'l']
  | .bool true => ['t', 'r', 'u', 'e']
  | .bool false => ['f', 'a', 'l', 's', 'e']
  | .integer i => integerChars i
  | .real x => realChars x
  | .string s => stringChars s
  | .array [] => ['[', ']']
  | .array (item :: items) => '[' :: (chars item ++ (itemChars items ++ [']']))
  | .object [] => ['{', '}']
  | .object ((name, value) :: entries) =>
    '{' :: (stringChars name ++ ':' :: (chars value ++ (entryChars entries ++ ['}'])))

/-- Further members of an array, each after a comma. -/
def itemChars : List Json → List Char
  | [] => []
  | item :: items => ',' :: (chars item ++ itemChars items)

/-- Further entries of an object, each after a comma. -/
def entryChars : List (String × Json) → List Char
  | [] => []
  | (name, value) :: entries =>
    ',' :: (stringChars name ++ ':' :: (chars value ++ entryChars entries))

end

def render (j : Json) : String := String.ofList (chars j)

end DocumentRules.Json
