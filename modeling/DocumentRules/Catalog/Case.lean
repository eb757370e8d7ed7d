/-
Test cases.

A test case is an input document and the fragment that the output must contain.  A case has an
id once it has been given one; cases without an id are all different from each other.
-/
import DocumentRules.Calendar.Timestamp
import DocumentRules.Document.Json
import DocumentRules.Json.Record
import DocumentRules.Order.OrderedSet

namespace DocumentRules

structure TestCase where
  id : Option String
  name : String
  enabled : Bool
  suite : Option String
  tags : OrderedSet String
  /-- Cases with a higher priority come first. -/
  priority : Int
  input : Document
  /-- The fragment that the output must contain. -/
  expected : Document

namespace TestCase

def hasTag (c : TestCase) (tag : String) : Bool := tag ∈ c.tags

def hasId (c : TestCase) (id : String) : Bool := c.id == some id

def duplicate (c : TestCase) : TestCase := { c with id := none, name := c.name ++ " (copy)" }

/-- Priorities are integers of 32 bits. -/
def priorityOfJson? : Json → Option Int := Json.integerIn? Int32.minValue.toInt Int32.maxValue.toInt

def fieldNames : List String :=
  ["id", "name", "enabled", "suite", "tags", "priority", "input", "expected", "created_at",
   "updated_at"]

def ofJson? (j : Json) : Option TestCase := do
  let r ← Record.ofJson? fieldNames j
  let id ← r.defaulted "id" (fun j => j.string?.map some) none
  let name ← r.required "name" Json.string?
  let enabled ← r.defaulted "enabled" Json.bool? true
  let suite ← r.optional "suite" Json.string?
  let tags ← r.defaulted "tags" (Json.list? Json.string?) []
  let priority ← r.defaulted "priority" priorityOfJson? 0
  let input ← r.required "input" (some ∘ Document.ofJson)
  let expected ← r.required "expected" (some ∘ Document.ofJson)
  let _ ← r.defaulted "created_at" Timestamp.ofJson? ""
  let _ ← r.defaulted "updated_at" Timestamp.ofJson? ""
  return ⟨id, name, enabled, suite, .ofList tags, priority, input, expected⟩

end TestCase

end DocumentRules
