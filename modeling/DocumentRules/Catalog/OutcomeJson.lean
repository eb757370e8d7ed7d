/-
Outcomes as JSON.

A verdict is a record whose field `status` is `pass`, `fail` or `error`.  Null counts as
nothing where a value may be missing.
-/
import DocumentRules.Catalog.Outcome
import DocumentRules.Change.Mutation

namespace DocumentRules

namespace Mismatch

def toJson (m : Mismatch) : Json :=
  .object ([
    ("path", Path.toJson m.path),
    ("expected", m.expected.toJson),
    ("actual", Json.ofOption (m.actual.map Value.toJson))] ++
    Json.optional "reason" (m.reason.map .string))

def ofJson? (j : Json) : Option Mismatch := do
  let r ← Record.ofJson? ["path", "expected", "actual", "reason"] j
  let path ← r.required "path" Path.ofJson?
  let expected ← r.required "expected" (some ∘ Value.ofJson)
  let actual ← r.nullable "actual" (some ∘ Value.ofJson)
  let reason ← r.optional "reason" Json.string?
  return ⟨path, expected, actual, reason⟩

end Mismatch

namespace Verdict

def toJson : Verdict → Json
  | .pass => .object [("status", .string "pass")]
  | .fail mismatches =>
    .object [("status", .string "fail"), ("mismatches", .array (mismatches.map Mismatch.toJson))]
  | .error message => .object [("status", .string "error"), ("message", .string message)]

def status? : Json → Option String
  | .object entries => (entries.find? (·.1 == "status")).bind (·.2.string?)
  | .array (j :: _) => j.string?
  | _ => none

def ofJson? (j : Json) : Option Verdict := do
  let status ← status? j
  if status = "pass" then (Record.ofJson? ["status"] j).map fun _ => .pass
  else if status = "fail" then
    let r ← Record.ofJson? ["status", "mismatches"] j
    return .fail (← r.required "mismatches" (Json.list? Mismatch.ofJson?))
  else if status = "error" then
    let r ← Record.ofJson? ["status", "message"] j
    return .error (← r.required "message" Json.string?)
  else none

end Verdict

namespace TestOutcome

def toJson (o : TestOutcome) : Json :=
  .object ([
    ("id", Json.ofOption (o.id.map .string)),
    ("name", .string o.name),
    ("verdict", o.verdict.toJson),
    ("duration_ms", .integer o.durationMs)] ++
    Json.optional "actual" (o.actual.map Document.toJson) ++ [
    ("mutations", .array (o.mutations.map Mutation.toJson)),
    ("logs", .array (o.logs.map LogLine.toJson))])

def ofJson? (j : Json) : Option TestOutcome := do
  let r ← Record.ofJson?
    ["id", "name", "verdict", "duration_ms", "actual", "mutations", "logs"] j
  let id ← r.required "id" Json.string?
  let name ← r.required "name" Json.string?
  let verdict ← r.required "verdict" Verdict.ofJson?
  let duration ← r.required "duration_ms" Json.natural?
  let actual ← r.optional "actual" (some ∘ Document.ofJson)
  let mutations ← r.defaulted "mutations" (Json.list? Mutation.ofJson?) []
  let logs ← r.defaulted "logs" (Json.list? LogLine.ofJson?) []
  return ⟨some id, name, verdict, duration, actual, mutations, logs⟩

end TestOutcome

end DocumentRules
