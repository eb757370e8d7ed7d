/-
Kinds of fields.

Rules declare paths but no types, so the kind of a field is guessed from the last name on its
path, unless a hint for the path says otherwise.
-/
import DocumentRules.Document.PathText
import DocumentRules.Json.Record
import DocumentRules.Order.Entries
import DocumentRules.Text.LetterCase

namespace DocumentRules

/-- What values a field has. -/
inductive FieldKind where
  | text
  | number
  | date
  | bool
  | iban
  deriving DecidableEq

/-- Kinds of fields by the text of their paths. -/
abbrev FieldHints := List (String × FieldKind)

namespace FieldKind

def word : FieldKind → String
  | .text => "text"
  | .number => "number"
  | .date => "date"
  | .bool => "bool"
  | .iban => "iban"

def ofWord? (s : String) : Option FieldKind :=
  if s = "text" then some .text
  else if s = "number" then some .number
  else if s = "date" then some .date
  else if s = "bool" then some .bool
  else if s = "iban" then some .iban
  else none

def ofJson? (j : Json) : Option FieldKind := j.word?.bind ofWord?

/-- A text contains another one. -/
def containsChars (part : List Char) : List Char → Bool
  | [] => part.isEmpty
  | c :: cs => part.isPrefixOf (c :: cs) || containsChars part cs

def numberWords : List String :=
  ["total", "net", "tax", "amount", "price", "qty", "quantity", "count", "rate", "vat", "number",
   "sum"]

def ofName (name : String) : FieldKind :=
  let cs := (Text.lower name).toList
  let has (part : String) : Bool := containsChars part.toList cs
  let begins (part : String) : Bool := part.toList.isPrefixOf cs
  let ends (part : String) : Bool := part.toList.isSuffixOf cs
  if has "iban" then .iban
  else if has "date" || ends "_at" then .date
  else if begins "is" || begins "has" || ends "flag" then .bool
  else if numberWords.any has then .number
  else .text

def lastName? (p : Path) : Option String :=
  p.reverse.findSome? fun
    | .key k => some k
    | .index _ => none

def ofPath (hints : FieldHints) (p : Path) : FieldKind :=
  (Entries.find? (Path.text p) hints).getD (((lastName? p).map ofName).getD .text)

end FieldKind

end DocumentRules
