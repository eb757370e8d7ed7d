/-
Blocks as JSON.

A block is a record whose field `type` names the kind of block; the other fields follow
in a fixed order.  The text of a block list is the source text of its rule.
-/
import DocumentRules.Block.Basic
import DocumentRules.Change.Mutation

namespace DocumentRules

namespace NormalKind

def text : NormalKind → String
  | .number => "number"
  | .date => "date"

def ofText? (s : String) : Option NormalKind :=
  if s = "number" then some .number else if s = "date" then some .date else none

/-- A kind is a word; it may also be written as the only name of an object, before a null or
an empty object. -/
def ofJson? : Json → Option NormalKind
  | .object [(s, .object [])] => ofText? s
  | j => j.word?.bind ofText?

end NormalKind

namespace Block

/-- The word for the kind of block. -/
def tag : Block → String
  | .set .. => "set"
  | .copy .. => "copy"
  | .upper _ => "upper"
  | .lower _ => "lower"
  | .trim _ => "trim"
  | .normalize .. => "normalize"
  | .extract .. => "extract"
  | .assert .. => "assert"

/-- The fields behind the tag. -/
def fieldsToJson : Block → List (String × Json)
  | .set field value => [("field", Path.toJson field), ("value", value.toJson)]
  | .copy field target => [("field", Path.toJson field), ("target", Path.toJson target)]
  | .upper field | .lower field | .trim field => [("field", Path.toJson field)]
  | .normalize field kind => [("field", Path.toJson field), ("kind", .string kind.text)]
  | .extract field pattern target group =>
    [("field", Path.toJson field), ("pattern", .string pattern), ("target", Path.toJson target),
     ("group", .integer group)]
  | .assert field message =>
    [("field", Path.toJson field), ("message", Json.ofOption (message.map .string))]

def toJson (b : Block) : Json := .object (("type", .string b.tag) :: b.fieldsToJson)

def tag? : Json → Option String
  | .object entries => (entries.find? (·.1 == "type")).bind (·.2.string?)
  | .array (j :: _) => j.string?
  | _ => none

def ofJson? (j : Json) : Option Block := do
  let tag ← tag? j
  let record (names : List String) := Record.ofJson? ("type" :: names) j
  if tag = "set" then
    let r ← record ["field", "value"]
    return .set (← r.required "field" Path.ofJson?) (← r.required "value" (some ∘ Document.ofJson))
  else if tag = "copy" then
    let r ← record ["field", "target"]
    return .copy (← r.required "field" Path.ofJson?) (← r.required "target" Path.ofJson?)
  else if tag = "upper" then
    return .upper (← (← record ["field"]).required "field" Path.ofJson?)
  else if tag = "lower" then
    return .lower (← (← record ["field"]).required "field" Path.ofJson?)
  else if tag = "trim" then
    return .trim (← (← record ["field"]).required "field" Path.ofJson?)
  else if tag = "normalize" then
    let r ← record ["field", "kind"]
    return .normalize (← r.required "field" Path.ofJson?)
      (← r.required "kind" NormalKind.ofJson?)
  else if tag = "extract" then
    let r ← record ["field", "pattern", "target", "group"]
    return .extract (← r.required "field" Path.ofJson?) (← r.required "pattern" Json.string?)
      (← r.required "target" Path.ofJson?) (← r.defaulted "group" Json.natural? 1)
  else if tag = "assert" then
    let r ← record ["field", "message"]
    return .assert (← r.required "field" Path.ofJson?) (← r.optional "message" Json.string?)
  else none

def sourceText (blocks : List Block) : String := (Json.array (blocks.map toJson)).render

end Block

end DocumentRules
