/-
Traces of runs.

The rules take turns, each on the document that the ones before it left, and everything that a
run gives can be read off its turns: the document that the last rule leaves, the changes in the
order of the rules and of the paths, and the log.

* `Turn` — what one rule did, and the document before and after it;
* `trace` — the turns of a run;
* **`RunState.invokeAll_eq`** — invoking rules one after another leaves what their turns say;
* **`run_eq_trace`** — so a run and its trace end alike, and the result is read off the turns.
-/
import DocumentRules.Run.Basic

namespace DocumentRules

/-- What the body of a rule did. -/
inductive TurnResult where
  | failed (failure : Failure)
  | completed (after : Document) (changes : List Mutation)

/-- A rule acts on a document. -/
structure Turn (m : Type → Type) where
  rule : Rule m
  before : Document
  result : TurnResult

variable {m : Type → Type}

namespace Turn

def after (t : Turn m) : Document :=
  match t.result with
  | .failed _ => t.before
  | .completed after _ => after

def changes (t : Turn m) : List Mutation :=
  match t.result with
  | .failed _ => []
  | .completed _ changes => changes

def logs (options : RunOptions) (t : Turn m) : List LogLine :=
  t.rule.info options " started" ++
    match t.result with
    | .failed failure => [t.rule.failureLine failure]
    | .completed _ changes => t.rule.info options (Rule.completion changes)

end Turn

/-- The turns of these rules, from a document on. -/
def trace [Monad m] : List (Rule m) → Document → m (Except RunError (List (Turn m)))
  | [], _ => return .ok []
  | r :: rs, d => do
    match ← r.body.invoke d with
    -- A failure is an entry of the trace, and the next rule sees the same document.
    | .error failure => return (← trace rs d).map (⟨r, d, .failed failure⟩ :: ·)
    | .ok after =>
      let changes := diffBy r.id d.value after.value
      match r.undeclared? changes with
      | some p => return .error (.undeclaredWrite r.id p)
      | none => return (← trace rs after).map (⟨r, d, .completed after changes⟩ :: ·)

namespace RunResult

/-- The document after the turns of a run. -/
def lastOf (d : Document) (turns : List (Turn m)) : Document :=
  (turns.getLast?.map Turn.after).getD d

def ofTurns (options : RunOptions) (d : Document) (turns : List (Turn m)) : RunResult where
  before := d
  after := lastOf d turns
  mutations := turns.flatMap Turn.changes
  logs := turns.flatMap (Turn.logs options)

theorem lastOf_cons (d : Document) (t : Turn m) (ts : List (Turn m)) :
    lastOf d (t :: ts) = lastOf t.after ts := by
  cases ts with
  | nil => rfl
  | cons u us => simp [lastOf, List.getLast?_cons]

theorem lastOf_append (d : Document) (ts us : List (Turn m)) :
    lastOf d (ts ++ us) = lastOf (lastOf d ts) us := by
  induction ts generalizing d with
  | nil => rfl
  | cons t ts ih => rw [List.cons_append, lastOf_cons, lastOf_cons, ih]

end RunResult

/-! ### Runs and their turns -/

namespace RunState

open RunResult (lastOf lastOf_cons)

/-- How far a run has come with these further turns. -/
def after (options : RunOptions) (s : RunState) (turns : List (Turn m)) : RunState where
  document := lastOf s.document turns
  mutations := s.mutations ++ turns.flatMap Turn.changes
  logs := s.logs ++ turns.flatMap (Turn.logs options)

variable {options : RunOptions}

theorem after_nil (s : RunState) : s.after options ([] : List (Turn m)) = s := by
  simp only [after, List.flatMap_nil, List.append_nil]
  rfl

theorem after_cons (s : RunState) (t : Turn m) (ts : List (Turn m)) :
    s.after options (t :: ts) = (s.after options [t]).after options ts := by
  simp only [after, lastOf_cons, List.flatMap_cons, List.flatMap_nil, List.append_nil,
    List.append_assoc]
  rfl

theorem after_failed (s : RunState) (r : Rule m) (failure : Failure) :
    s.after options [⟨r, s.document, .failed failure⟩] =
      { s with logs := s.logs ++ r.info options " started" ++ [r.failureLine failure] } := by
  simp [after, lastOf, Turn.after, Turn.changes, Turn.logs]

theorem after_completed (s : RunState) (r : Rule m) (next : Document) (changes : List Mutation) :
    s.after options [⟨r, s.document, .completed next changes⟩] =
      ⟨next, s.mutations ++ changes,
        s.logs ++ r.info options " started" ++ r.info options (Rule.completion changes)⟩ := by
  simp [after, lastOf, Turn.after, Turn.changes, Turn.logs]

variable [Monad m] [LawfulMonad m]

/-- Going on from where a turn leads is going on with that turn in front. -/
theorem map_after_cons (s : RunState) (t : Turn m) (x : m (Except RunError (List (Turn m)))) :
    Except.map ((s.after options [t]).after options) <$> x =
      Except.map (s.after options) <$> (do return (← x).map (t :: ·)) := by
  simp only [bind_pure_comp, Functor.map_map]
  refine congrArg (· <$> x) (funext fun outcome => ?_)
  cases outcome with
  | error e => rfl
  | ok ts => simp only [Except.map, after_cons s t ts]

/-- **Rules that are invoked one after another** bring a run as far as their turns say. -/
theorem invokeAll_eq (s : RunState) (rs : List (Rule m)) :
    invokeAll options s rs = Except.map (s.after options) <$> trace rs s.document := by
  induction rs generalizing s with
  | nil => simp only [invokeAll, trace, map_pure, Except.map, after_nil]
  | cons r rs ih =>
    rw [invokeAll, invoke, trace, bind_assoc, map_bind]
    refine bind_congr fun answer => ?_
    cases answer with
    | error failure =>
      rw [pure_bind, ← after_failed, ← map_after_cons]
      exact ih _
    | ok next =>
      simp only
      cases r.undeclared? (diffBy r.id s.document.value next.value) with
      | some p => rw [pure_bind, map_pure, Except.map]
      | none =>
        rw [pure_bind, ← after_completed, ← map_after_cons]
        exact ih _

end RunState

variable {options : RunOptions} {s : Snapshot m} {d : Document}

/-- **The result of a run is read off its turns.** -/
theorem run_eq_trace [Monad m] [LawfulMonad m] :
    run options s d = Except.map (RunResult.ofTurns options d) <$> trace s.orderedRules d := by
  have hresult (outcome : Except RunError (List (Turn m))) :
      ((outcome.map (RunState.after options (.start d))).map fun final =>
        ⟨d, final.document, final.mutations, final.logs⟩) =
        outcome.map (RunResult.ofTurns options d) := by
    cases outcome <;> rfl
  rw [run, RunState.invokeAll_eq]
  simp only [bind_pure_comp, Functor.map_map, hresult]
  rfl

/-- The result of a run whose bodies are functions of the document. -/
theorem run_id_eq_trace {s : Snapshot Id} :
    (run options s d).run =
      (trace s.orderedRules d).run.map (RunResult.ofTurns options d) :=
  congrArg Id.run run_eq_trace

theorem run_eq_ok_iff_trace {s : Snapshot Id} {result : RunResult} :
    (run options s d).run = .ok result ↔
      ∃ turns, (trace s.orderedRules d).run = .ok turns ∧
        RunResult.ofTurns options d turns = result := by
  rw [run_id_eq_trace]
  cases (trace s.orderedRules d).run <;> simp [Except.map]

theorem run_eq_error_iff_trace {s : Snapshot Id} {err : RunError} :
    (run options s d).run = .error err ↔ (trace s.orderedRules d).run = .error err := by
  rw [run_id_eq_trace]
  cases (trace s.orderedRules d).run <;> simp [Except.map]

end DocumentRules
