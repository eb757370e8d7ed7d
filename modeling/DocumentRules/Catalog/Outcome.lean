/-
Outcomes of test cases.

A case passes if its run completes and the output contains the expected fragment; a run that
is aborted is an error.

* `evaluate`, `evaluateAll` — run cases against a snapshot;
* `evaluateWith` — the same, shared out among workers;
* `Coverage.ofOutcomes` — what the completed runs covered, passing or not.
-/
import DocumentRules.Catalog.Basic
import DocumentRules.Catalog.Containment
import DocumentRules.Coverage.Fact
import DocumentRules.Run.Basic

namespace DocumentRules

inductive Verdict where
  | pass
  | fail (mismatches : List Mismatch)
  | error (message : String)

structure TestOutcome where
  id : Option String
  name : String
  verdict : Verdict
  /-- How long the run took, in milliseconds; zero if nobody measured it. -/
  durationMs : Nat
  /-- The output; none if the run was aborted. -/
  actual : Option Document
  mutations : List Mutation
  logs : List LogLine

namespace TestOutcome

def passed (o : TestOutcome) : Bool :=
  match o.verdict with
  | .pass => true
  | _ => false

def completed (o : TestOutcome) : Bool :=
  match o.verdict with
  | .error _ => false
  | _ => true

/-- The outcome of a case whose run ended like this. -/
def ofRun (c : TestCase) : Except RunError RunResult → TestOutcome
  | .ok r =>
    let mismatches := compare c.expected.value r.after.value
    { id := c.id
      name := c.name
      verdict := if mismatches.isEmpty then .pass else .fail mismatches
      durationMs := 0
      actual := some r.after
      mutations := r.mutations
      logs := r.logs }
  | .error e =>
    { id := c.id
      name := c.name
      verdict := .error e.message
      durationMs := 0
      actual := none
      mutations := []
      logs := [] }

end TestOutcome

variable {m : Type → Type} [Monad m]

def evaluate (options : RunOptions) (s : Snapshot m) (c : TestCase) : m TestOutcome :=
  return .ofRun c (← run options s c.input)

def evaluateAll (options : RunOptions) (s : Snapshot m) : List TestCase → m (List TestOutcome)
  | [] => return []
  | c :: cs => do
    let o ← evaluate options s c
    return o :: (← evaluateAll options s cs)

/-- The members in parts of this size, and of one member at least; the last part may be
shorter. -/
def chunks {α : Type} (size : Nat) : List α → List (List α)
  | [] => []
  | a :: as => (a :: as.take (size - 1)) :: chunks size (as.drop (size - 1))
termination_by as => as.length

/-- The outcomes of the cases, which are shared out among at most so many workers.  Each of them
evaluates one part, and the outcomes are joined in the order of the parts. -/
def evaluateWith (workers : Nat) (options : RunOptions) (s : Snapshot m) (cs : List TestCase) :
    m (List TestOutcome) :=
  let workers := min workers (max cs.length 1)
  if workers ≤ 1 then evaluateAll options s cs
  else
    let size := (cs.length + workers - 1) / workers
    return (← (chunks size cs).mapM (evaluateAll options s)).flatten

/-- The facts of all completed runs. -/
def Coverage.ofOutcomes (os : List TestOutcome) : Coverage :=
  .ofMutations ((os.filter TestOutcome.completed).flatMap TestOutcome.mutations)

/-- What the enabled cases of a catalog cover. -/
def Catalog.coverage (options : RunOptions) (s : Snapshot m) (g : Catalog) : m Coverage :=
  return .ofOutcomes (← evaluateAll options s g.enabled)

end DocumentRules
