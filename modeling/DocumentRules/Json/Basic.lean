/-
JSON values.

Whole numbers and other numbers are kept apart: a number token without point and
exponent that fits 64 bits is an `integer`, every other one is the nearest `real`.
The entries of an object keep the order and the repetitions of the text.

A text is read for the sake of a value, of which everything counts, or of a record, of which
the known fields count.  A `Shape` names the fields, and the shapes of what they hold.
-/
import DocumentRules.Number.Numeral

namespace DocumentRules

inductive Json where
  | null
  | bool (b : Bool)
  | integer (i : Int)
  | real (x : Binary64)
  | string (s : String)
  | array (items : List Json)
  | object (entries : List (String × Json))
  deriving Inhabited

namespace Json

/-- An entry that is left out when there is no value. -/
def optional (name : String) (value : Option Json) : List (String × Json) :=
  match value with
  | some j => [(name, j)]
  | none => []

/-- The text, or null. -/
def ofOption (value : Option Json) : Json := value.getD .null

def isNull : Json → Bool
  | .null => true
  | _ => false

/-- Which parts of a text count. -/
inductive Shape where
  /-- Everything. -/
  | whole
  /-- An array, whose members have a shape of their own. -/
  | list (item : Shape)
  /-- A record, whose fields have shapes of their own. -/
  | record (fields : List (String × Shape))

namespace Shape

/-- A record with these fields, everything in which counts. -/
def ofNames (names : List String) : Shape := .record (names.map (·, .whole))

/-- The shape of a member of an array. A record may be written as the array of its fields. -/
def item (s : Shape) (i : Nat) : Shape :=
  match s with
  | .whole => .whole
  | .list item => item
  | .record fields => ((fields[i]?).map (·.2)).getD .whole

/-- The shape of an entry of an object; none if the entry is passed over. -/
def entry? (s : Shape) (name : String) : Option Shape :=
  match s with
  | .record fields => (fields.find? (·.1 == name)).map (·.2)
  | _ => some .whole

end Shape

end Json

end DocumentRules
