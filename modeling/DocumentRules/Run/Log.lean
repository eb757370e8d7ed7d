/-
Log lines of a run.

A line has a level, the rule it is about, and a message; it carries no time, so that the log
of a run is a function of the run.
-/
import DocumentRules.Json.Record

namespace DocumentRules

inductive LogLevel where
  | info
  | error
  deriving DecidableEq

namespace LogLevel

def text : LogLevel → String
  | .info => "info"
  | .error => "error"

def ofText? (s : String) : Option LogLevel :=
  if s = "info" then some .info else if s = "error" then some .error else none

end LogLevel

structure LogLine where
  level : LogLevel
  rule : Option String
  message : String
  deriving DecidableEq

namespace LogLine

def isError (l : LogLine) : Bool := l.level == .error

def text (l : LogLine) : String :=
  let head := "[" ++ l.level.text ++ "] "
  match l.rule with
  | some id => head ++ id ++ ": " ++ l.message
  | none => head ++ l.message

def toJson (l : LogLine) : Json :=
  .object ([("level", .string l.level.text)] ++ Json.optional "rule_id" (l.rule.map .string) ++
    [("message", .string l.message)])

def ofJson? (j : Json) : Option LogLine := do
  let r ← Record.ofJson? ["level", "rule_id", "message"] j
  let level ← r.required "level" fun j => j.word?.bind LogLevel.ofText?
  let rule ← r.optional "rule_id" Json.string?
  let message ← r.required "message" Json.string?
  return ⟨level, rule, message⟩

end LogLine

end DocumentRules
