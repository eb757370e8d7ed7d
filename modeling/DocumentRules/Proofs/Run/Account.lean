/-
The log of a run accounts for the run.

Rule bodies are functions of the document here, so what a run does is settled by the rules and the
document: each body is invoked on what the rules before it have left, and answers.  That is the list
`invocations`, which knows neither logs nor checks.  A run that gives a result is read off it.

* **`trace_eq_invocations`** — the turns of a run that gives a result are the invocations;
* **`run_minimal`** — what is not to be logged is left out of the log, and nothing else changes;
* **`filter_changes`** — the record holds the changes of a rule as one block, so the number in its
  last line is the number of its changes in the record;
* **`log_accounts`** — the log, the count of failures and the record of a run, all by the same list.
-/
import DocumentRules.Proofs.Change.Listing
import DocumentRules.Proofs.Dependency.LeastOrder
import DocumentRules.Proofs.Run.Frame
import DocumentRules.Proofs.Run.Independence
import DocumentRules.Proofs.Run.Replay

namespace DocumentRules

open RunResult (lastOf)

/-- The body of a rule is invoked on a document, and answers. -/
structure Invocation where
  rule : Rule Id
  before : Document
  answer : Except Failure Document

namespace Invocation

/-- The document that is handed on: the same one, if the body fails. -/
def after (i : Invocation) : Document :=
  match i.answer with
  | .error _ => i.before
  | .ok e => e

def failed (i : Invocation) : Bool :=
  match i.answer with
  | .error _ => true
  | .ok _ => false

/-- What the rule has changed, in the order of the paths. -/
def changes (i : Invocation) : List Mutation :=
  match i.answer with
  | .error _ => []
  | .ok e => diffBy i.rule.id i.before.value e.value

/-- The two lines on the rule in the log of a run with these changes: its start, and its failure or
its completion. -/
def lines (record : List Mutation) (i : Invocation) : List LogLine :=
  [⟨.info, some i.rule.id, "Rule " ++ i.rule.name ++ " started"⟩,
    match i.answer with
    | .error failure =>
      ⟨.error, some i.rule.id, "Rule " ++ i.rule.name ++ " failed: " ++ failure.message⟩
    | .ok _ =>
      ⟨.info, some i.rule.id, "Rule " ++ i.rule.name ++ (" completed with " ++
        toString (record.countP (·.rule == some i.rule.id)) ++ " mutation(s)")⟩]

/-- The turn that a rule takes if all that it has changed is declared. -/
def turn (i : Invocation) : Turn Id :=
  ⟨i.rule, i.before,
    match i.answer with
    | .error failure => .failed failure
    | .ok e => .completed e (diffBy i.rule.id i.before.value e.value)⟩

@[simp] theorem after_turn (i : Invocation) : i.turn.after = i.after := by
  obtain ⟨r, d, _ | e⟩ := i <;> rfl

@[simp] theorem changes_turn (i : Invocation) : i.turn.changes = i.changes := by
  obtain ⟨r, d, _ | e⟩ := i <;> rfl

end Invocation

/-- The rules are invoked one after another, each on the document that the one before it hands
on. -/
def invocations : List (Rule Id) → Document → List Invocation
  | [], _ => []
  | r :: rs, d =>
    let i : Invocation := ⟨r, d, (r.body.invoke d).run⟩
    i :: invocations rs i.after

theorem map_rule_invocations (rs : List (Rule Id)) (d : Document) :
    (invocations rs d).map Invocation.rule = rs := by
  induction rs generalizing d with
  | nil => rfl
  | cons r rs ih => rw [invocations, List.map_cons, ih]

/-- A turn is what its invocation says. -/
theorem Rule.Takes.eq_turn {r : Rule Id} {d : Document} {t : Turn Id} (h : r.Takes d t) :
    t = Invocation.turn ⟨r, d, (r.body.invoke d).run⟩ := by
  cases h with
  | failed answer => rw [Invocation.turn, answer]
  | completed answer _ => rw [Invocation.turn, answer]

/-- **The turns of a run that gives a result are the invocations.** -/
theorem trace_eq_invocations {rs : List (Rule Id)} {d : Document} {turns : List (Turn Id)}
    (h : (trace rs d).run = .ok turns) : turns = (invocations rs d).map Invocation.turn := by
  induction rs generalizing d turns with
  | nil =>
    cases h
    rfl
  | cons r rs ih =>
    obtain ⟨t, us, rfl, ht, hus⟩ := trace_cons_eq_ok.mp h
    obtain rfl := ht.eq_turn
    -- The other rules run on the document that the first one hands on.
    rw [Invocation.after_turn] at hus
    rw [invocations, List.map_cons, ih hus]

/-! ### What is logged -/

/-- The result with the lines on failures only. -/
def RunResult.errorsOnly (r : RunResult) : RunResult :=
  { r with logs := r.logs.filter LogLine.isError }

/-- Without the lines on start and completion the lines on failures are left. -/
theorem Turn.logs_minimal {m : Type → Type} (t : Turn m) :
    t.logs .minimal = (t.logs { ruleLogs := true }).filter LogLine.isError := by
  obtain ⟨r, d, failure | ⟨e, changes⟩⟩ := t <;> rfl

theorem RunResult.ofTurns_minimal {m : Type → Type} (d : Document) (turns : List (Turn m)) :
    ofTurns .minimal d turns = (ofTurns { ruleLogs := true } d turns).errorsOnly := by
  have hlogs : turns.flatMap (Turn.logs .minimal) =
      (turns.flatMap (Turn.logs { ruleLogs := true })).filter LogLine.isError := by
    rw [List.filter_flatMap]
    exact List.flatMap_congr fun t _ => t.logs_minimal
  rw [errorsOnly, ofTurns, hlogs]
  rfl

/-- **What is not to be logged is left out of the log**, and nothing else changes. -/
theorem run_minimal (s : Snapshot Id) (d : Document) :
    (run .minimal s d).run =
      (run { ruleLogs := true } s d).run.map RunResult.errorsOnly := by
  rw [run_id_eq_trace, run_id_eq_trace]
  cases (trace s.orderedRules d).run with
  | error err => rfl
  | ok turns => exact congrArg Except.ok (RunResult.ofTurns_minimal d turns)

/-! ### The record of one rule -/

section Record

variable {is : List Invocation} {i : Invocation} {c : Mutation}

theorem Invocation.rule_of_mem_changes (hc : c ∈ i.changes) : c.rule = some i.rule.id := by
  obtain ⟨r, d, failure | e⟩ := i
  · cases hc
  · exact rule_of_mem_diffBy hc

/-- **The record holds the changes of a rule as one block**: those that it attributes to the
rule are the ones that the rule made. -/
theorem filter_changes (hids : (is.map (·.rule.id)).Nodup) (hi : i ∈ is) :
    (is.flatMap Invocation.changes).filter (·.rule == some i.rule.id) = i.changes := by
  obtain ⟨front, back, rfl⟩ := List.append_of_mem hi
  have hown : i.changes.filter (·.rule == some i.rule.id) = i.changes :=
    List.filter_eq_self.mpr fun c hc => by rw [i.rule_of_mem_changes hc, beq_self_eq_true]
  -- The other invocations are of rules with other ids.
  have hothers (js : List Invocation) (hjs : ∀ j ∈ js, j.rule.id ≠ i.rule.id) :
      (js.flatMap Invocation.changes).filter (·.rule == some i.rule.id) = [] := by
    refine List.filter_eq_nil_iff.mpr fun c hc => ?_
    obtain ⟨j, hj, hcj⟩ := List.mem_flatMap.mp hc
    rw [j.rule_of_mem_changes hcj]
    simpa using hjs j hj
  rw [List.map_append, List.map_cons, List.nodup_append, List.nodup_cons] at hids
  obtain ⟨-, ⟨hback, -⟩, hfront⟩ := hids
  rw [List.flatMap_append, List.flatMap_cons, List.filter_append, List.filter_append, hown,
    hothers front fun j hj => hfront _ (List.mem_map_of_mem hj) _ (List.mem_cons_self ..),
    hothers back fun j hj hid => hback (hid ▸ List.mem_map_of_mem hj), List.nil_append,
    List.append_nil]

/-- The lines of a turn are those of its invocation, beside the record of the run. -/
theorem logs_turn (hids : (is.map (·.rule.id)).Nodup) (hi : i ∈ is) :
    i.turn.logs { ruleLogs := true } = i.lines (is.flatMap Invocation.changes) := by
  have hcount : (is.flatMap Invocation.changes).countP (·.rule == some i.rule.id) =
      i.changes.length := by
    rw [List.countP_eq_length_filter, filter_changes hids hi]
  rw [Invocation.lines, hcount]
  obtain ⟨r, d, failure | e⟩ := i <;> rfl

/-- In the log there is one error line for each body that failed. -/
theorem countP_isError_lines (record : List Mutation) :
    (is.flatMap (Invocation.lines record)).countP LogLine.isError = is.countP Invocation.failed := by
  induction is with
  | nil => rfl
  | cons i is ih =>
    have hlines : (i.lines record).countP LogLine.isError = if i.failed then 1 else 0 := by
      obtain ⟨r, d, failure | e⟩ := i <;> rfl
    rw [List.flatMap_cons, List.countP_append, ih, List.countP_cons, hlines, Nat.add_comm]

end Record

/-! ### The order of the record -/

/-- The place in the order of execution of the rule that made the change. -/
def Mutation.position (rules : List (Rule Id)) (c : Mutation) : Nat :=
  rules.findIdx fun r => c.rule == some r.id

/-- The first change stands in front of the second one: its rule runs earlier, or it is by the same
rule and has the smaller path. -/
def Mutation.Earlier (rules : List (Rule Id)) (b c : Mutation) : Prop :=
  b.position rules < c.position rules ∨
    (b.position rules = c.position rules ∧ b.path < c.path)

section Order

variable {is : List Invocation}

/-- The changes of an invocation have its position. -/
theorem position_of_mem_changes (hids : (is.map (·.rule.id)).Nodup) {n : Nat} (hn : n < is.length)
    {c : Mutation} (hc : c ∈ is[n].changes) : c.position (is.map Invocation.rule) = n := by
  have hn' : n < (is.map Invocation.rule).length := by rwa [List.length_map]
  rw [Mutation.position, is[n].rule_of_mem_changes hc, List.findIdx_eq hn']
  refine ⟨by simp, fun k hk => ?_⟩
  have hne : is[k].rule.id ≠ is[n].rule.id := by
    have hpair := List.pairwise_map.mp hids
    exact List.pairwise_iff_getElem.mp hpair k n (hk.trans hn) hn hk
  simpa using hne.symm

/-- The changes of one rule are recorded in strictly ascending order of their paths. -/
theorem Invocation.changes_ascending (i : Invocation) :
    i.changes.Pairwise fun b c => b.path < c.path := by
  obtain ⟨r, d, failure | e⟩ := i
  · exact List.Pairwise.nil
  · exact List.pairwise_map.mpr
      ((Value.diff_precedes d.wellFormed e.wellFormed).imp fun h => h.lt)

/-- **The record ascends** by the order of execution and, for each rule, by the paths. -/
theorem changes_earlier (hids : (is.map (·.rule.id)).Nodup) :
    (is.flatMap Invocation.changes).Pairwise (Mutation.Earlier (is.map Invocation.rule)) := by
  refine List.pairwise_flatMap.mpr ⟨fun i hi => ?_, ?_⟩
  -- Changes of one rule differ in their paths, and those of two rules in their positions.
  · obtain ⟨n, hn, rfl⟩ := List.getElem_of_mem hi
    refine is[n].changes_ascending.imp_of_mem fun hb hc hbc => Or.inr ⟨?_, hbc⟩
    rw [position_of_mem_changes hids hn hb, position_of_mem_changes hids hn hc]
  · refine List.pairwise_iff_getElem.mpr fun n k hn hk hnk b hb c hc => Or.inl ?_
    rwa [position_of_mem_changes hids hn hb, position_of_mem_changes hids hk hc]

end Order

/-! ### The account -/

/-- The result of a run of these rules over a document, with all lines logged, says what the
bodies did. -/
structure RunResult.Accounts (result : RunResult) (rules : List (Rule Id)) (d : Document) :
    Prop where
  before : result.before = d
  after : result.after = ((invocations rules d).getLast?.map Invocation.after).getD d
  logs : result.logs = (invocations rules d).flatMap (Invocation.lines result.mutations)
  failures : result.failures = (invocations rules d).countP Invocation.failed
  /-- The changes that are attributed to a rule are those between the documents before and after
  it. -/
  attributed : ∀ i ∈ invocations rules d,
    result.mutations.filter (·.rule == some i.rule.id) = i.changes
  failed : ∀ i ∈ invocations rules d, i.failed = true →
    (∀ c ∈ result.mutations, c.rule ≠ some i.rule.id) ∧ i.after = i.before
  ascending : result.mutations.Pairwise (Mutation.Earlier rules)

/-- **A run that gives a result accounts for what the bodies did**, if no two rules share an id. -/
theorem accounts_of_trace {rules : List (Rule Id)} {d : Document} {turns : List (Turn Id)}
    (hids : (rules.map Rule.id).Nodup) (h : (trace rules d).run = .ok turns) :
    (RunResult.ofTurns { ruleLogs := true } d turns).Accounts rules d := by
  obtain rfl := trace_eq_invocations h
  have hrules : ((invocations rules d).map (·.rule.id)).Nodup := by
    rwa [← map_rule_invocations rules d, List.map_map] at hids
  have hmutations : ((invocations rules d).map Invocation.turn).flatMap Turn.changes =
      (invocations rules d).flatMap Invocation.changes := by
    rw [List.flatMap_map]
    exact List.flatMap_congr fun i _ => i.changes_turn
  have hlogs : ((invocations rules d).map Invocation.turn).flatMap
        (Turn.logs { ruleLogs := true }) =
      (invocations rules d).flatMap
        (Invocation.lines ((invocations rules d).flatMap Invocation.changes)) := by
    rw [List.flatMap_map]
    exact List.flatMap_congr fun i hi => logs_turn hrules hi
  have hattributed : ∀ i ∈ invocations rules d,
      ((invocations rules d).flatMap Invocation.changes).filter (·.rule == some i.rule.id) =
        i.changes := fun i hi => filter_changes hrules hi
  rw [RunResult.ofTurns, hmutations, hlogs]
  refine ⟨rfl, ?_, rfl, countP_isError_lines _, hattributed, ?_, ?_⟩
  · rw [lastOf, List.getLast?_map, Option.map_map]
    exact congrArg (fun f => (Option.map f _).getD d) (funext Invocation.after_turn)
  · intro i hi hfailed
    obtain ⟨r, before, failure | e⟩ := i
    · refine ⟨fun c hc hrule => ?_, rfl⟩
      have hnone := List.filter_eq_nil_iff.mp (hattributed _ hi) c hc
      exact hnone (beq_iff_eq.mpr hrule)
    · cases hfailed
  · have hascending := changes_earlier hrules
    rwa [map_rule_invocations] at hascending

/-- **The log of a run accounts for the run.**  Whether the start and the completion of rules are
logged decides on these lines and on nothing else: both runs end with the same error, or with
results that are the same but for the log, of which the lines on failures are left.  A run that
logs everything and gives a result has, for the enabled rules in the order of execution, a line on
the start and a line on the failure, if the body failed on the document that the rules before it
left, or else on the completion, with the number of the changes that the record attributes to the
rule.  It counts the bodies that failed; these changed nothing, and left their document to the next
rule.  The record strictly ascends by the order of execution and by the paths. -/
theorem log_accounts {g : Registry Id} {s : Snapshot Id} (hg : g.Reachable)
    (hs : Snapshot.ofRegistry g = .ok s) (d : Document) :
    (run .minimal s d).run =
      (run { ruleLogs := true } s d).run.map RunResult.errorsOnly ∧
    s.orderedRules.Perm g.enabledRules ∧
    ∀ result, (run { ruleLogs := true } s d).run = .ok result →
      result.Accounts s.orderedRules d := by
  refine ⟨run_minimal s d, Registry.orderedRules_perm hg.compatible hs, fun result hresult => ?_⟩
  obtain ⟨turns, hturns, rfl⟩ := run_eq_ok_iff_trace.mp hresult
  exact accounts_of_trace (Registry.nodup_orderedRules_ids hg hs) hturns

namespace Faltering

/-- The rule would copy, but its body always fails. -/
def refusing : Rule Id :=
  { Chained.copying "second" "b" "c" with body := .native "" fun _ => .error ⟨"refused"⟩ }

def registry : Registry Id :=
  (Registry.empty.edit.performAll
    [.add refusing, .add (Chained.copying "first" "a" "b"),
      .add (Chained.copying "third" "b" "d")]).build

def snapshot : Snapshot Id :=
  ⟨registry, ⟨["first", "second", "third"], ⟨[[1, 2], [], []]⟩, [0, 1, 2]⟩⟩

theorem reachable : registry.Reachable := .revise .empty _

theorem ofRegistry_eq : Snapshot.ofRegistry registry = .ok snapshot :=
  Snapshot.ofRegistry_of_findCycle ⟨[[1, 2], [], []]⟩ rfl (by cbv) (by decide +kernel)

end Faltering

open Faltering in
/-- The second of three rules fails, and the third one reads what the first one has written. -/
theorem log_accounts_faltering :
    ∃ result, (run { ruleLogs := true } snapshot Chained.document).run = .ok result ∧
      (run .minimal snapshot Chained.document).run = .ok result.errorsOnly ∧
      result.logs.map LogLine.text =
        ["[info] first: Rule first started",
          "[info] first: Rule first completed with 1 mutation(s)",
          "[info] second: Rule second started",
          "[error] second: Rule second failed: refused",
          "[info] third: Rule third started",
          "[info] third: Rule third completed with 1 mutation(s)"] ∧
      result.failures = 1 ∧
      result.mutations.map (fun c => (c.rule, c.path)) =
        [(some "first", [.key "b"]), (some "third", [.key "d"])] ∧
      result.Accounts snapshot.orderedRules Chained.document := by
  obtain ⟨hminimal, -, haccounts⟩ := log_accounts reachable ofRegistry_eq Chained.document
  refine ⟨_, rfl, hminimal, ?_, ?_, ?_, haccounts _ rfl⟩
  · decide
  · decide
  · decide

end DocumentRules
