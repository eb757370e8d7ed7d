/-
Field matchers.

In the expected fragment of a test case, a map with the single key `$match` stands for
a condition on a field instead of for a value.  Every rule of the matcher must hold:

* `exists` — the field is there and not null, or else it is not;
* `regex` — the text of the field matches a pattern; a missing field has the empty text;
* `approx` — the field is a number, or the text of one, within a tolerance;
* `equals` — the field equals a value, whole numbers in either spelling.

A matcher without rules never holds.
-/
import DocumentRules.Document.Value
import DocumentRules.Regex.Machine
import DocumentRules.Text.Classes

namespace DocumentRules

/-- The rules of a field matcher, by name. -/
structure Matcher where
  rules : List (String × Value)

namespace Matcher

def matchKey : String := "$match"

/-- The matcher that an expected value stands for. -/
def of? : Value → Option Matcher
  | .map [(k, rules)] => if k = matchKey then some ⟨rules.entries?.getD []⟩ else none
  | _ => none

inductive Failure where
  | noRules
  | existsNeedsBool
  | presence (expected actual : Bool)
  | regexNeedsString
  | invalidRegex (pattern reason : String)
  | noMatch (pattern text : String)
  | approxNeedsNumber
  | missing
  | notNumeric
  | outOfTolerance (actual expected tolerance : Binary64)
  | notEqual
  | unknownRule (name : String)
  deriving DecidableEq

def boolText (b : Bool) : String := if b then "true" else "false"

def numberText (x : Binary64) : String := Numeral.write Numeral.plain x

def Failure.message : Failure → String
  | .noRules => "matcher has no rules"
  | .existsNeedsBool => "exists expects a boolean"
  | .presence expected actual =>
    "exists expected " ++ boolText expected ++ " but was " ++ boolText actual
  | .regexNeedsString => "regex expects a string"
  | .invalidRegex _ reason => "invalid regex: " ++ reason
  | .noMatch pattern text => "regex '" ++ pattern ++ "' does not match '" ++ text ++ "'"
  | .approxNeedsNumber => "approx expects a number"
  | .missing => "field is missing"
  | .notNumeric => "field is not numeric"
  | .outOfTolerance actual expected tolerance =>
    "|" ++ numberText actual ++ " - " ++ numberText expected ++ "| > " ++ numberText tolerance
  | .notEqual => "equals mismatch"
  | .unknownRule name => "unknown matcher rule '" ++ name ++ "'"

/-- The text of a field: texts stand for themselves. -/
def fieldText : Value → String
  | .string s => s
  | v => v.display

/-- A number, or the text of one. -/
def numeric? : Value → Option Binary64
  | .string s => Numeral.read? (Text.trimChars s.toList)
  | v => v.number?

/-- The field, unless it is null. -/
def present? (field : Option Value) : Option Value := field.filter (!·.isNull)

/-- The number that `approx` expects, and the tolerance that stands beside it. -/
def approxTarget : Value → Option Binary64 × Option Binary64
  | .map entries =>
    ((Entries.find? "value" entries).bind Value.number?,
     (Entries.find? "tol" entries).bind Value.number?)
  | v => (v.number?, none)

/-- Check the rule `approx`. A tolerance of the matcher itself goes before the one beside the
number. -/
def checkApprox (m : Matcher) (rule : Value) (field : Option Value) : Except Failure Unit :=
  match approxTarget rule with
  | (none, _) => .error .approxNeedsNumber
  | (some expected, inner) =>
    let outer := (Entries.find? "tol" m.rules).bind Value.number?
    let tolerance := (outer.or inner).getD (.zero false)
    match present? field with
    | none => .error .missing
    | some v =>
      match numeric? v with
      | none => .error .notNumeric
      | some actual =>
        if tolerance.lt (actual.sub expected).abs then
          .error (.outOfTolerance actual expected tolerance)
        else .ok ()

def checkRule (m : Matcher) (field : Option Value) (name : String) (rule : Value) :
    Except Failure Unit :=
  if name = "exists" then
    match rule.bool? with
    | none => .error .existsNeedsBool
    | some expected =>
      let actual := (present? field).isSome
      if expected = actual then .ok () else .error (.presence expected actual)
  else if name = "regex" then
    match rule.string? with
    | none => .error .regexNeedsString
    | some pattern =>
      match Regex.compile pattern with
      | .error reason => .error (.invalidRegex pattern reason)
      | .ok r =>
        let text := ((present? field).map fieldText).getD ""
        if r.isMatch text then .ok () else .error (.noMatch pattern text)
  else if name = "approx" then m.checkApprox rule field
  else if name = "tol" then .ok ()
  else if name = "equals" then
    if rule.looselyEqual (field.getD .null) then .ok () else .error .notEqual
  else .error (.unknownRule name)

def checkRules (m : Matcher) (field : Option Value) : List (String × Value) → Except Failure Unit
  | [] => .ok ()
  | (name, rule) :: rules =>
    match m.checkRule field name rule with
    | .error e => .error e
    | .ok () => checkRules m field rules

/-- Check a field; the error is about the first rule that does not hold. -/
def check (m : Matcher) (field : Option Value) : Except Failure Unit :=
  if m.rules.isEmpty then .error .noRules else m.checkRules field m.rules

end Matcher

end DocumentRules
