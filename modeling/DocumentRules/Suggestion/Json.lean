/-
Suggestions as JSON.

A written suggestion also carries the id and the time that whoever stored it gave it.  Of
stored suggestions only the fingerprint matters here, but they must be complete records.
-/
import DocumentRules.Coverage.Fact
import DocumentRules.Json.Basic
import DocumentRules.Suggestion.Engine

namespace DocumentRules.Suggestion

def toJson (s : Suggestion) : Json :=
  .object [
    ("rule_id", .string s.rule),
    ("target", Path.toJson s.target),
    ("input", s.input.toJson),
    ("reason", .string s.reason),
    ("coverage_delta", s.coverageDelta.toJson),
    ("score", .real s.score),
    ("hash", .string s.hash),
    ("strategy", .string s.strategy),
    ("expected", s.expected.toJson)]

/-- Thirty-two hexadecimal digits. -/
def isIdDigits (cs : List Char) : Bool :=
  cs.length == 32 && cs.all fun c => c.isDigit || ('a' ≤ c && c ≤ 'f') || ('A' ≤ c && c ≤ 'F')

/-- The digits of an id with hyphens behind the digits 8, 12, 16 and 20. -/
def unhyphenated? (cs : List Char) : Option (List Char) :=
  let at? (i : Nat) : Bool := cs[i]? == some '-'
  if cs.length == 36 && at? 8 && at? 13 && at? 18 && at? 23 then some (cs.filter (· != '-'))
  else none

/-- The text is a universally unique id: digits with or without hyphens, the former also in
braces or behind "urn:uuid:" in any letter case. -/
def isId (s : String) : Bool :=
  let cs := s.toList
  let bare :=
    if (cs.take 9).map Char.toLower = "urn:uuid:".toList then cs.drop 9
    else if cs.head? == some '\x7b' && cs.getLast? == some '\x7d' then (cs.drop 1).dropLast
    else cs
  isIdDigits cs || (unhyphenated? bare).any isIdDigits

def idOfJson? : Json → Option String
  | .string s => if isId s then some s else none
  | _ => none

def numberOfJson? : Json → Option Binary64
  | .integer i => some (.ofInt i)
  | .real x => some x
  | _ => none

def fieldNames : List String :=
  ["id", "rule_id", "target", "input", "reason", "coverage_delta", "score", "hash", "strategy",
   "created_at", "expected"]

/-- The parts of a stored suggestion that count. -/
def shape : Json.Shape :=
  .record (fieldNames.map fun name =>
    (name, if name = "coverage_delta" then .list (.ofNames Coverage.Fact.fieldNames) else .whole))

def hashOfJson? (j : Json) : Option String := do
  let r ← Record.ofJson? fieldNames j
  let _ ← r.required "id" idOfJson?
  let _ ← r.required "rule_id" Json.string?
  let _ ← r.required "target" Path.ofJson?
  let _ ← r.required "input" (some ∘ Document.ofJson)
  let _ ← r.required "reason" Json.string?
  let _ ← r.required "coverage_delta" (Json.list? Coverage.Fact.ofJson?)
  let _ ← r.required "score" numberOfJson?
  let hash ← r.required "hash" Json.string?
  let _ ← r.required "strategy" Json.string?
  let _ ← r.required "created_at" Timestamp.ofJson?
  let _ ← r.required "expected" (some ∘ Document.ofJson)
  return hash

end DocumentRules.Suggestion
