/-
Property checks.

A rule is run alone on random documents over its declared reads.  A trial passes if two runs
agree, and if running again on the output changes nothing.

* `randomInput` — a random document, in which every fifth read is left out;
* `trial` — the property that a trial violates, if any;
* `checkProperties` — the report on a number of trials.
-/
import DocumentRules.Run.Basic
import DocumentRules.Suggestion.Strategy

namespace DocumentRules

inductive Property where
  /-- Two runs on the same input agree. -/
  | determinism
  /-- Running again on the output changes nothing. -/
  | idempotence
  /-- No run is aborted. -/
  | completion
  deriving DecidableEq

def Property.text : Property → String
  | .determinism => "determinism"
  | .idempotence => "idempotence"
  | .completion => "completion"

structure PropertyFailure where
  property : Property
  input : Document
  message : String

structure PropertyReport where
  rule : String
  seed : Nat
  trials : Nat
  failures : List PropertyFailure

namespace PropertyReport

def failed (r : PropertyReport) : Nat := r.failures.length

def passed (r : PropertyReport) : Nat := r.trials - r.failed

end PropertyReport

inductive PropertyError where
  | unknownRule (id : String)
  /-- The rule cannot be registered alone. -/
  | isolation (e : RegistryError)
  | run (e : RunError)
  deriving DecidableEq

def PropertyError.message : PropertyError → String
  | .unknownRule id => "Unknown rule: " ++ id
  | .isolation e => "Cannot isolate rule: " ++ e.message
  | .run e => e.message

/-- Random values for these fields, of which every fifth is left out. -/
def randomFields (hints : FieldHints) : List Path → Draw (List (Path × Document))
  | [] => return []
  | p :: ps => do
    if ← Draw.chance .fifth then randomFields hints ps
    else
      let v ← (FieldKind.ofPath hints p).random
      return (p, v) :: (← randomFields hints ps)

def randomInput (hints : FieldHints) (fields : List Path) : Draw Document :=
  return documentOf (← randomFields hints fields)

def trialInputs (hints : FieldHints) (fields : List Path) : Nat → Draw (List Document)
  | 0 => return []
  | n + 1 => do
    let d ← randomInput hints fields
    return d :: (← trialInputs hints fields n)

/-- As `trialInputs`, unless an input has a position that no list can have. -/
def trialInputsWithin (hints : FieldHints) (fields : List Path) :
    Nat → Draw (Except Overflow (List Document))
  | 0 => return .ok []
  | n + 1 => do
    let input := documentWithin (← randomFields hints fields)
    let inputs ← trialInputsWithin hints fields n
    return do return (← input) :: (← inputs)

variable {m : Type → Type}

def isolate (r : Rule m) : Except PropertyError (Snapshot m) :=
  match Draft.empty.add r with
  | .error e => .error (.isolation e)
  | .ok draft =>
    match Snapshot.ofRegistry draft.build with
    | .error e => .error (.run e)
    | .ok s => .ok s

variable [Monad m]

/-- Run a snapshot twice on an input, and once more on the output. -/
def trial (options : RunOptions) (s : Snapshot m) (input : Document) :
    m (Option PropertyFailure) := do
  let aborted (e : RunError) : Option PropertyFailure := some ⟨.completion, input, e.message⟩
  match ← run options s input with
  | .error e => return aborted e
  | .ok first =>
    match ← run options s input with
    | .error e => return aborted e
    | .ok second =>
      if first.sameOutcome second then
        -- A body that failed left the input, on which it fails again: that changes nothing.
        match ← run options s first.after with
        | .error e => return aborted e
        | .ok again =>
          if again.after.value.equal first.after.value then return none
          else
            return some ⟨.idempotence, input,
              "re-running changed " ++ toString again.mutations.length ++ " path(s)"⟩
      else return some ⟨.determinism, input, "two runs on the same input disagree"⟩

def trialFailures (options : RunOptions) (s : Snapshot m) : List Document → m (List PropertyFailure)
  | [] => return []
  | input :: inputs => do
    let failure ← trial options s input
    return failure.toList ++ (← trialFailures options s inputs)

/-- Check a rule of a snapshot on random inputs. -/
def checkProperties (options : RunOptions) (hints : FieldHints) (s : Snapshot m) (id : String)
    (trials seed : Nat) : m (Except PropertyError PropertyReport) := do
  match s.registry.get? id with
  | none => return .error (.unknownRule id)
  | some r =>
    match isolate r with
    | .error e => return .error e
    | .ok alone =>
      let inputs := (trialInputs hints r.readFields trials (.ofSeed (UInt64.ofNat seed))).1
      return .ok ⟨id, seed, trials, ← trialFailures options alone inputs⟩

/-- As `checkProperties`, unless an input has a position that no list can have. -/
def checkPropertiesWithin [MonadExceptOf Overflow m] (options : RunOptions) (hints : FieldHints)
    (s : Snapshot m) (id : String) (trials seed : Nat) :
    m (Except PropertyError PropertyReport) := do
  if let some r := s.registry.get? id then
    -- A rule that cannot be registered alone has no trials.
    if let .ok _ := isolate r then
      let inputs := trialInputsWithin hints r.readFields trials (.ofSeed (UInt64.ofNat seed))
      let _ ← Overflow.lift inputs.1
  checkProperties options hints s id trials seed

def PropertyFailure.toJson (f : PropertyFailure) : Json :=
  .object [
    ("property", .string f.property.text),
    ("input", f.input.toJson),
    ("message", .string f.message)]

def PropertyReport.toJson (r : PropertyReport) : Json :=
  .object [
    ("rule_id", .string r.rule),
    ("seed", .integer r.seed),
    ("trials", .integer r.trials),
    ("passed", .integer r.passed),
    ("failed", .integer r.failed),
    ("failures", .array (r.failures.map PropertyFailure.toJson))]

end DocumentRules
