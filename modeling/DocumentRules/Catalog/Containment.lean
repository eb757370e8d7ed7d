/-
Containment of an expected fragment.

The maps of the fragment are descended; at every other value the actual document must hold an
equal one, whole numbers in either spelling.  An empty map below the root asks for a map, and a
matcher for a field that it accepts; an empty map at the root asks for nothing.

* `compare` — the fields of the fragment that do not hold, in the order of their paths.
-/
import DocumentRules.Catalog.Matcher
import DocumentRules.Document.Access

namespace DocumentRules

/-- An expected field that does not hold. -/
structure Mismatch where
  path : Path
  expected : Value
  /-- What is there; none if nothing is. -/
  actual : Option Value
  /-- Why a matcher rejects the field. -/
  reason : Option String

/-- The same mismatch one step further down. -/
def Mismatch.under (s : Step) (m : Mismatch) : Mismatch := { m with path := s :: m.path }

mutual

/-- Compare a fragment with what stands in its place. -/
def contain (field : Option Value) (expected : Value) : List Mismatch :=
  match Matcher.of? expected with
  | some m =>
    match m.check field with
    | .ok () => []
    | .error e => [⟨[], expected, field, some e.message⟩]
  | none =>
    match expected with
    | .map [] =>
      -- Any map will do, but it must be one.
      if field.any fun v => v.entries?.isSome then [] else [⟨[], expected, field, none⟩]
    | .map (entry :: entries) => containEntries field (entry :: entries)
    | _ => if field.any (·.looselyEqual expected) then [] else [⟨[], expected, field, none⟩]

/-- Compare the entries of a fragment with what stands in its place. -/
def containEntries (field : Option Value) : List (String × Value) → List Mismatch
  | [] => []
  | (k, v) :: es =>
    (contain (field.bind (·.child? (.key k))) v).map (Mismatch.under (.key k)) ++
      containEntries field es

end

/-- The fields of an expected fragment that do not hold of a document. -/
def compare (expected actual : Value) : List Mismatch :=
  match expected with
  | .map [] => []
  | _ => contain (some actual) expected

end DocumentRules
