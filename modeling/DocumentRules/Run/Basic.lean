/-
Runs of rules over a document.

A run goes through the enabled rules of a snapshot in their order.  Each sees the document that
the ones before it left; a rule whose body fails leaves it as it is, and a rule that changes a
leaf which it does not declare as a write ends the run.

* `Rule.undeclared?` — the first leaf that changes touch without a declaration of the rule;
* `RunState` — the document, the changes and the log so far;
* `RunState.invoke` — what one rule does to them;
* `run` — all enabled rules of a snapshot over a document;
* `RunResult.sameOutcome` — two runs had the same effect and the same log.
-/
import DocumentRules.Change.Diff
import DocumentRules.Run.Log
import DocumentRules.Run.Snapshot

namespace DocumentRules

/-- What a run writes down. -/
structure RunOptions where
  /-- Log the start and the completion of every rule. Failures are always logged. -/
  ruleLogs : Bool := true

/-- Only failures are logged. -/
def RunOptions.minimal : RunOptions := ⟨false⟩

def RunOptions.ofJson? (j : Json) : Option RunOptions := do
  let r ← Record.ofJson? ["rule_logs"] j
  return ⟨← r.defaulted "rule_logs" Json.bool? true⟩

structure RunResult where
  before : Document
  after : Document
  /-- In the order of the rules, then of the paths. -/
  mutations : List Mutation
  logs : List LogLine

namespace RunResult

/-- The number of rules whose body failed. -/
def failures (r : RunResult) : Nat := r.logs.countP LogLine.isError

/-- The two runs started from the same document, had the same effect and wrote the same log. -/
def sameOutcome (r s : RunResult) : Bool :=
  r.before.value.equal s.before.value && r.after.value.equal s.after.value &&
    r.mutations.isEqv s.mutations Mutation.equal && r.logs == s.logs

def toJson (r : RunResult) : Json :=
  .object [
    ("before", r.before.toJson),
    ("after", r.after.toJson),
    ("mutations", .array (r.mutations.map Mutation.toJson)),
    ("logs", .array (r.logs.map LogLine.toJson))]

end RunResult

variable {m : Type → Type}

namespace Rule

/-- The first leaf, in the order of the changes and of the paths, that the rule does not
declare as a write. -/
def undeclared? (r : Rule m) (changes : List Mutation) : Option Path :=
  changes.findSome? fun c => c.touchedLeaves.toList.find? fun p => !r.declaresWrite p

/-- A line about the rule, which is logged only if the options ask for it. -/
def info (r : Rule m) (options : RunOptions) (message : String) : List LogLine :=
  if options.ruleLogs then [⟨.info, some r.id, "Rule " ++ r.name ++ message⟩] else []

/-- The line about a failure of the rule. -/
def failureLine (r : Rule m) (failure : Failure) : LogLine :=
  ⟨.error, some r.id, "Rule " ++ r.name ++ " failed: " ++ failure.message⟩

/-- What is said of the changes of the rule. -/
def completion (changes : List Mutation) : String :=
  " completed with " ++ toString changes.length ++ " mutation(s)"

end Rule

/-- How far a run has come. -/
structure RunState where
  document : Document
  mutations : List Mutation
  logs : List LogLine

namespace RunState

def start (d : Document) : RunState := ⟨d, [], []⟩

variable [Monad m]

/-- One rule is invoked. -/
def invoke (options : RunOptions) (s : RunState) (r : Rule m) : m (Except RunError RunState) := do
  let logs := s.logs ++ r.info options " started"
  match ← r.body.invoke s.document with
  -- The next rule sees the same document.
  | .error failure => return .ok { s with logs := logs ++ [r.failureLine failure] }
  | .ok next =>
    let changes := diffBy r.id s.document.value next.value
    match r.undeclared? changes with
    | some p => return .error (.undeclaredWrite r.id p)
    | none =>
      return .ok ⟨next, s.mutations ++ changes, logs ++ r.info options (Rule.completion changes)⟩

/-- The rules are invoked one after another, up to the first that ends the run. -/
def invokeAll (options : RunOptions) (s : RunState) : List (Rule m) → m (Except RunError RunState)
  | [] => return .ok s
  | r :: rs => do
    match ← s.invoke options r with
    | .ok s => invokeAll options s rs
    | .error e => return .error e

end RunState

/-- Run the enabled rules of a snapshot over a document. -/
def run [Monad m] (options : RunOptions) (s : Snapshot m) (d : Document) :
    m (Except RunError RunResult) :=
  return (← RunState.invokeAll options (.start d) s.orderedRules).map fun final =>
    ⟨d, final.document, final.mutations, final.logs⟩

end DocumentRules
