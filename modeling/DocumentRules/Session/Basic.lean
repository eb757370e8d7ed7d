/-
Sessions.

A session brings rules and test cases together: it registers the built-in rules and the rules
of its source, and runs, evaluates, measures and suggests on the snapshot that results.  A
source that is down has a text that says why; only the operations that need it fail.

* `Session.snapshot` — the rules of the session, ready to run;
* `runDocument`, `evaluateTests`, `coverage`, `fieldCoverage`, `suggestTests`,
  `checkProperties` — the operations.
-/
import DocumentRules.BuiltIn.Rules
import DocumentRules.Catalog.FieldReport
import DocumentRules.Property.Check
import DocumentRules.Suggestion.Engine

namespace DocumentRules

inductive SessionError where
  | registry (e : RegistryError)
  | run (e : RunError)
  | property (e : PropertyError)
  | sourceUnavailable (reason : String)
  deriving DecidableEq

def SessionError.message : SessionError → String
  | .registry e => "registry error: " ++ e.message
  | .run e => "run error: " ++ e.message
  | .property e => "test generation error: " ++ e.message
  | .sourceUnavailable reason => "source unavailable: " ++ reason

/-- Rules and test cases, each from a source that may be down. -/
structure Session (m : Type → Type) where
  rules : Except String (List (Rule m))
  cases : Except String (List TestCase)
  knownHashes : Except String (OrderedSet String)
  options : RunOptions := {}
  config : SuggestConfig := {}
  /-- How many evaluations the machine can run side by side. -/
  workers : Nat := 1

namespace Session

variable {m : Type → Type} [Monad m]

def supplied {α : Type} (source : Except String α) : Except SessionError α :=
  source.mapError .sourceUnavailable

/-- The rules of the session, the built-in ones among them. -/
def snapshot (s : Session m) : Except SessionError (Snapshot m) := do
  -- The built-in rules come first, so a rule of the source that takes a name of theirs is refused.
  let (builtIns, added) := Draft.empty.addBuiltIns
  added.mapError .registry
  let rules ← supplied s.rules
  let draft ← (builtIns.addAll rules).mapError .registry
  (Snapshot.ofRegistry draft.build).mapError .run

def catalog (s : Session m) : Except SessionError Catalog := (supplied s.cases).map (⟨·⟩)

/-- Run a document, with rules that override those of the session for this run. -/
def runDocument (s : Session m) (d : Document) (overrides : List (Rule m)) :
    m (Except SessionError RunResult) := do
  match s.snapshot.bind fun base => (base.withOverrides overrides).mapError .run with
  | .error e => return .error e
  | .ok snapshot => return (← run s.options snapshot d).mapError .run

/-- Do something with the cases and the snapshot of the session; the cases are asked for
first. -/
def withCases {α : Type} (s : Session m) (f : Catalog → Snapshot m → m (Except SessionError α)) :
    m (Except SessionError α) :=
  match s.catalog with
  | .error e => return .error e
  | .ok g =>
    match s.snapshot with
    | .error e => return .error e
    | .ok snapshot => f g snapshot

/-- The outcomes of the enabled cases that a filter admits. -/
def evaluateTests (s : Session m) (f : TestFilter) : m (Except SessionError (List TestOutcome)) :=
  s.withCases fun g snapshot =>
    return .ok (← evaluateWith s.workers s.options snapshot (g.select f))

/-- What the enabled cases cover. -/
def coverage (s : Session m) : m (Except SessionError Coverage) :=
  s.withCases fun g snapshot => return .ok (← g.coverage s.options snapshot)

/-- The field report on the enabled cases; with a rule, on the changes of that rule. -/
def fieldCoverage (s : Session m) (rule : Option String) :
    m (Except SessionError (List FieldCoverage)) :=
  s.withCases fun g snapshot => do
    let outcomes ← evaluateWith s.workers s.options snapshot g.enabled
    return .ok (fieldReport rule (g.enabled.zip outcomes))

/-- Suggestions for the declared writes that the cases do not cover. -/
def suggestTests [MonadExceptOf Overflow m] (s : Session m) (limit : Nat) :
    m (Except SessionError (List Suggestion)) :=
  s.withCases fun g snapshot => do
    let coverage ← g.coverage s.options snapshot
    match supplied s.knownHashes with
    | .error e => return .error e
    | .ok known =>
      return .ok (← (SuggestionEngine.ofConfig s.config).suggestWithin snapshot coverage known limit)

def checkProperties [MonadExceptOf Overflow m] (s : Session m) (rule : String)
    (trials seed : Option Nat) : m (Except SessionError PropertyReport) :=
  match s.snapshot with
  | .error e => return .error e
  | .ok snapshot => do
    let report ← checkPropertiesWithin .minimal s.config.hints snapshot rule
      (trials.getD s.config.propertyTrials) (seed.getD s.config.seed)
    return report.mapError .property

end Session

end DocumentRules
