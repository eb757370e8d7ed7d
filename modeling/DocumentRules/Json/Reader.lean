/-
Reading JSON text.

A text is read for a shape.  The entries that the shape passes over must follow the grammar,
but need not stand for a value.  Everywhere else a number too large for any floating-point
number, a string with half a surrogate pair and a container nested too deep make the text
unreadable.

* `Json.parseAs` — the value of a text, without the entries that its shape does not name;
* `Json.parse` — the value of a text of which everything counts.
-/
import DocumentRules.Json.Basic
import DocumentRules.Json.Tree

namespace DocumentRules.Json

/-- The greatest number of containers that may be open at once. -/
def maxDepth : Nat := 127

/-! ### Numbers -/

/-- The number nearest to a decimal, unless it is out of range. -/
def real? (negative : Bool) (d : Decimal) : Option Json :=
  let x := Numeral.nearest negative d
  if x.isFinite then some (.real x) else none

/-- The number with a sign and an unsigned text. -/
def magnitude? (negative : Bool) (cs : List Char) : Option Json :=
  if cs.all Char.isDigit then
    let n := Numeral.natValue cs
    let i : Int := if negative then -n else n
    if (negative && n == 0) || i < Int64.minValue.toInt || UInt64.size ≤ i then
      real? negative ⟨n, 0⟩
    else some (.integer i)
  else (Numeral.readMagnitude? cs).bind (real? negative)

/-- The number that a token spells. -/
def number? : List Char → Option Json
  | '-' :: cs => magnitude? true cs
  | cs => magnitude? false cs

/-! ### Values -/

namespace Tree

mutual

/-- The value of a tree that has a shape, where at most `depth` containers may be open at
once. -/
def value? (shape : Shape) (depth : Nat) : Tree → Option Json
  | .word j => some j
  | .number chars => number? chars
  | .string pieces => (Piece.text? pieces).map .string
  | .array items =>
    if depth = 0 then none else (itemValues? shape (depth - 1) 0 items).map .array
  | .object entries =>
    if depth = 0 then none else (entryValues? shape (depth - 1) entries).map .object

/-- The values of the members of an array from the position `i` on. -/
def itemValues? (shape : Shape) (depth i : Nat) : List Tree → Option (List Json)
  | [] => some []
  | t :: ts => do
    let j ← value? (shape.item i) depth t
    let js ← itemValues? shape depth (i + 1) ts
    return j :: js

/-- The entries of an object that count. -/
def entryValues? (shape : Shape) (depth : Nat) :
    List (List Piece × Tree) → Option (List (String × Json))
  | [] => some []
  | (pieces, t) :: es => do
    let name ← Piece.text? pieces
    match shape.entry? name with
    | none => entryValues? shape depth es
    | some s =>
      let j ← value? s depth t
      let js ← entryValues? shape depth es
      return (name, j) :: js

end

end Tree

def parseAs (shape : Shape) (text : String) : Option Json :=
  (Tree.parse? text).bind (·.value? shape maxDepth)

/-- Read a JSON text of which everything counts. -/
def parse (text : String) : Option Json := parseAs .whole text

end DocumentRules.Json
