/-
What a property report says about the body of a rule.

A check registers its rule alone and runs the snapshot of it on every input: twice, and once more
on the output.  With bodies that are functions of the document, the verdict of a trial is a
statement about the body.  A run of the rule alone is one turn of it, if it is enabled.  If it is
disabled the run is empty, so that every trial passes whatever the body does.

* **`exists_isolate`** — every rule can be registered alone;
* **`trial_eq_none_iff`** — a trial passes if a run equals itself, and so does what it leaves;
* **`trial_passes_iff`** — what that says about the body;
* **`property_report_exact`** — the report, trial by trial.
-/
import DocumentRules.Proofs.Change.Recorded
import DocumentRules.Proofs.Change.Replay
import DocumentRules.Proofs.Dependency.Circle
import DocumentRules.Proofs.Dependency.LeastOrder
import DocumentRules.Proofs.Property.Inputs
import DocumentRules.Proofs.Run.Undeclared

namespace DocumentRules

open Value (ChangedLeaf)

/-! ### A rule alone -/

section Isolation

variable {m : Type → Type}

/-- The graph of one rule has no circle, whatever the rule reads and writes. -/
theorem build_single (r : Rule m) : ∃ graph, DependencyGraph.build ⟨[r]⟩ = .ok graph := by
  cases hbuild : DependencyGraph.build ⟨[r]⟩ with
  | ok graph => exact ⟨graph, rfl⟩
  | error c =>
    obtain ⟨s, hs⟩ := (DependencyGraph.build_fails_iff (List.pairwise_singleton ..)).mp ⟨c, hbuild⟩
    -- A circle has an edge, which leads from the rule to another one.
    have hsingle {t : Rule m} (ht : t ∈ Registry.enabledRules ⟨[r]⟩) : t = r :=
      List.mem_singleton.mp (List.mem_of_mem_filter ht)
    obtain ⟨t, hst, -⟩ := Relation.TransGen.head'_iff.mp hs
    exact absurd ((hsingle hst.writer).trans (hsingle hst.reader).symm) hst.ne

/-- **Every rule can be registered alone**, and runs alone if it is enabled. -/
theorem exists_isolate (r : Rule m) :
    ∃ alone, isolate r = .ok alone ∧ alone.orderedRules = if r.enabled then [r] else [] := by
  obtain ⟨graph, hgraph⟩ := build_single r
  have hadd : Draft.empty.add r = .ok ⟨[r]⟩ := by
    simp [Draft.add, Draft.empty, Draft.conflictWith?]
  have hregistry : Snapshot.ofRegistry ⟨[r]⟩ = .ok ⟨⟨[r]⟩, graph⟩ := by
    rw [Snapshot.ofRegistry, hgraph]
  refine ⟨⟨⟨[r]⟩, graph⟩, ?_, ?_⟩
  · rw [isolate, hadd]
    simp only [show Draft.build ⟨[r]⟩ = ⟨[r]⟩ from rfl, hregistry]
  have hperm := Registry.orderedRules_perm (List.pairwise_singleton ..) hregistry
  rw [show Registry.enabledRules ⟨[r]⟩ = [r].filter (·.enabled) from rfl,
    List.filter_singleton] at hperm
  cases henabled : r.enabled <;> rw [henabled] at hperm
  · exact hperm.eq_nil
  · exact List.perm_singleton.mp hperm

end Isolation

/-! ### Runs that equal themselves -/

theorem isEqv_self_iff {α : Type} {f : α → α → Bool} {as : List α} :
    as.isEqv as f = true ↔ ∀ a ∈ as, f a a = true := by
  induction as with
  | nil => simp [List.isEqv]
  | cons a as ih => simp [List.isEqv, ih]

/-- The changes between documents without `nan` equal themselves. -/
theorem equal_self_of_mem_diffBy {d e : Document} (hd : d.NanFree) (he : e.NanFree) {id : String} :
    ∀ c ∈ diffBy id d.value e.value, c.equal c = true := by
  refine List.forall_mem_map.mpr fun c hc => ?_
  obtain ⟨hold, hnew, -⟩ := Value.old_new_of_mem_diff d.wellFormed e.wellFormed hc
  have hsame {u : Value} (hu : u.NanFree) :
      Mutation.sameValue (u.get? c.path) (u.get? c.path) = true :=
    Mutation.sameValue_refl fun _ hv => Value.nanFree_of_get? hu hv
  simp only [Mutation.equal, Mutation.byRule, hold, hnew, hsame hd, hsame he, beq_self_eq_true,
    Bool.and_true]

theorem sameOutcome_self_iff {result : RunResult} :
    result.sameOutcome result = true ↔
      result.before.NanFree ∧ result.after.NanFree ∧
        ∀ c ∈ result.mutations, c.equal c = true := by
  have hself (d : Document) : d.value.equal d.value = true ↔ d.NanFree :=
    ⟨Value.nanFree_of_equal_self, Value.equal_refl⟩
  simp only [RunResult.sameOutcome, Bool.and_eq_true, hself, isEqv_self_iff, beq_self_eq_true,
    and_true, and_assoc]

/-! ### The verdict of a trial -/

/-- The verdict of a trial where runs are functions of the document: a second run on the input is
the first one again. -/
def verdict (runOn : Document → Except RunError RunResult) (input : Document) :
    Option PropertyFailure :=
  match runOn input with
  | .error e => some ⟨.completion, input, e.message⟩
  | .ok first =>
    if first.sameOutcome first then
      match runOn first.after with
      | .error e => some ⟨.completion, input, e.message⟩
      | .ok again =>
        if again.after.value.equal first.after.value then none
        else some ⟨.idempotence, input,
          "re-running changed " ++ toString again.mutations.length ++ " path(s)"⟩
    else some ⟨.determinism, input, "two runs on the same input disagree"⟩

section Trial

variable {options : RunOptions} {s : Snapshot Id} {r : Rule Id} {input d e : Document}

theorem trial_eq_verdict :
    (trial options s input).run = verdict (fun d => (run options s d).run) input := by
  simp only [trial, verdict, Id.run_bind]
  cases hfirst : (run options s input).run with
  | error err => rfl
  | ok first =>
    simp only [Id.run_bind, hfirst]
    split
    · simp only [Id.run_bind]
      cases (run options s first.after).run with
      | error err => rfl
      | ok again => exact apply_ite Id.run ..
    · rfl

/-- A failure holds the input that it was found on. -/
theorem input_of_verdict {runOn : Document → Except RunError RunResult} {f : PropertyFailure}
    (h : verdict runOn input = some f) : f.input = input := by
  unfold verdict at h
  repeat' split at h
  all_goals cases h
  all_goals rfl

/-- **A trial passes** if its run equals itself, which a run with `nan` does not, and running again
on the output leaves an equal document. -/
theorem verdict_eq_none_iff {runOn : Document → Except RunError RunResult} :
    verdict runOn input = none ↔
      ∃ first, runOn input = .ok first ∧ first.sameOutcome first = true ∧
        ∃ again, runOn first.after = .ok again ∧
          again.after.value.equal first.after.value = true := by
  unfold verdict
  cases runOn input with
  | error err => simp
  | ok first =>
    by_cases hsame : first.sameOutcome first = true
    · simp only [Except.ok.injEq, exists_eq_left', hsame, true_and]
      cases runOn first.after with
      | error err => simp
      | ok again => simp
    · simp [hsame]

/-! ### One turn of a rule -/

/-- The body fails on the document, or gives an equal one. -/
def Rule.Rests (r : Rule Id) (d : Document) : Prop :=
  (∃ failure, (r.body.invoke d).run = .error failure) ∨
    ∃ e, (r.body.invoke d).run = .ok e ∧ e.value.equal d.value = true

/-- What a passed trial says about the body of a rule that was invoked. -/
inductive Rule.Passes (r : Rule Id) (d : Document) : Prop
  /-- It fails on the input. -/
  | failed {failure : Failure} (answer : (r.body.invoke d).run = .error failure)
  /-- It changes only declared leaves of the input, and what it gives is left as it is. -/
  | settled {e : Document} (answer : (r.body.invoke d).run = .ok e)
      (declared : ∀ p, ChangedLeaf d.value e.value p → r.declaresWrite p = true)
      (nanFree : e.NanFree) (rests : r.Rests e)

theorem run_of_failed {failure : Failure} (hs : s.orderedRules = [r])
    (answer : (r.body.invoke d).run = .error failure) :
    (run options s d).run = .ok (.ofTurns options d [⟨r, d, .failed failure⟩]) := by
  rw [run_id_eq_trace, hs, trace_cons, answer]
  rfl

/-- A run of a body that gives a document has a result if all changes are declared. -/
theorem run_eq_ok_iff {result : RunResult} (hs : s.orderedRules = [r])
    (answer : (r.body.invoke d).run = .ok e) :
    (run options s d).run = .ok result ↔
      (∀ p, ChangedLeaf d.value e.value p → r.declaresWrite p = true) ∧
        .ofTurns options d [⟨r, d, .completed e (diffBy r.id d.value e.value)⟩] = result := by
  rw [run_id_eq_trace, hs, trace_cons, answer, ← Rule.undeclared?_eq_none]
  simp only
  cases r.undeclared? (diffBy r.id d.value e.value) with
  | some p => simp [Except.map]
  | none => simp [Except.map, trace]

/-- Running again on an output without `nan` leaves it as it is exactly if the body rests. -/
theorem exists_again_iff (hs : s.orderedRules = [r]) (hd : d.NanFree) :
    (∃ again, (run options s d).run = .ok again ∧ again.after.value.equal d.value = true) ↔
      r.Rests d := by
  cases hanswer : (r.body.invoke d).run with
  | error failure =>
    exact iff_of_true ⟨_, run_of_failed hs hanswer, Value.equal_refl hd⟩ (Or.inl ⟨failure, hanswer⟩)
  | ok e =>
    have hrests : r.Rests d ↔ e.value.equal d.value = true := by
      simp [Rule.Rests, hanswer]
    simp only [hrests, run_eq_ok_iff hs hanswer, and_assoc]
    constructor
    · rintro ⟨again, -, rfl, hequal⟩
      exact hequal
    · -- Between equal documents there is no change that could be undeclared.
      intro hequal
      have hnil : diffBy r.id d.value e.value = [] := by
        rw [diffBy, Value.diff_of_equal d.wellFormed e.wellFormed (Value.equal_symm hequal)]
        rfl
      exact ⟨_, Rule.undeclared?_eq_none.mp (by rw [hnil]; rfl), rfl, hequal⟩

/-- **What a passed trial says about the body** of an enabled rule. -/
theorem trial_passes_iff (hs : s.orderedRules = [r]) (hinput : input.NanFree) :
    (trial options s input).run = none ↔ r.Passes input := by
  rw [trial_eq_verdict, verdict_eq_none_iff]
  cases hanswer : (r.body.invoke input).run with
  | error failure =>
    refine iff_of_true ⟨_, run_of_failed hs hanswer, ?_, ?_⟩ (.failed hanswer)
    · exact sameOutcome_self_iff.mpr ⟨hinput, hinput, by simp [RunResult.ofTurns, Turn.changes]⟩
    · exact (exists_again_iff hs hinput).mpr (Or.inl ⟨failure, hanswer⟩)
  | ok e =>
    simp only [run_eq_ok_iff hs hanswer, and_assoc, sameOutcome_self_iff]
    constructor
    · rintro ⟨first, declared, rfl, -, nanFree, -, again⟩
      exact .settled hanswer declared nanFree ((exists_again_iff hs nanFree).mp again)
    · intro hpasses
      cases hpasses with
      | failed answer => simp [hanswer] at answer
      | settled answer declared nanFree rests =>
        obtain rfl := Except.ok.inj (hanswer.symm.trans answer)
        refine ⟨_, declared, rfl, hinput, nanFree, ?_, (exists_again_iff hs nanFree).mpr rests⟩
        simpa [RunResult.ofTurns, Turn.changes] using equal_self_of_mem_diffBy hinput nanFree

/-- A trial without any rule to run passes. -/
theorem trial_of_no_rules (hs : s.orderedRules = []) (hinput : input.NanFree) :
    (trial options s input).run = none := by
  have hrun (d : Document) :
      (run options s d).run = .ok (.ofTurns options d ([] : List (Turn Id))) := by
    rw [run_id_eq_trace, hs]
    rfl
  rw [trial_eq_verdict, verdict_eq_none_iff]
  refine ⟨_, hrun input, ?_, _, hrun _, Value.equal_refl hinput⟩
  exact sameOutcome_self_iff.mpr ⟨hinput, hinput, by simp [RunResult.ofTurns]⟩

theorem trialFailures_eq_filterMap (inputs : List Document) :
    (trialFailures options s inputs).run =
      inputs.filterMap fun input => (trial options s input).run := by
  induction inputs with
  | nil => rfl
  | cons input inputs ih =>
    show (trial options s input).run.toList ++ (trialFailures options s inputs).run = _
    rw [ih, List.filterMap_cons]
    cases (trial options s input).run <;> rfl

end Trial

/-! ### The report -/

theorem checkProperties_of_none {options : RunOptions} {hints : FieldHints} {s : Snapshot Id}
    {id : String} {trials seed : ℕ} (h : s.registry.get? id = none) :
    (checkProperties options hints s id trials seed).run = .error (.unknownRule id) := by
  rw [checkProperties, h]
  rfl

theorem checkProperties_of_some (options : RunOptions) (hints : FieldHints) (trials seed : ℕ)
    {s alone : Snapshot Id} {id : String} {r : Rule Id} (h : s.registry.get? id = some r)
    (halone : isolate r = .ok alone) :
    (checkProperties options hints s id trials seed).run =
      .ok ⟨id, seed, trials,
        (trialInputs hints r.readFields trials (.ofSeed (UInt64.ofNat seed))).1.filterMap
          fun input => (trial options alone input).run⟩ := by
  rw [← trialFailures_eq_filterMap, checkProperties, h]
  simp only [halone]
  rfl

/-- A check of a disabled rule has nothing to report. -/
theorem checkProperties_of_disabled {options : RunOptions} {hints : FieldHints} {s : Snapshot Id}
    {id : String} {trials seed : ℕ} {r : Rule Id} (h : s.registry.get? id = some r)
    (hdisabled : r.enabled = false) :
    (checkProperties options hints s id trials seed).run = .ok ⟨id, seed, trials, []⟩ := by
  obtain ⟨alone, halone, hordered⟩ := exists_isolate r
  rw [hdisabled] at hordered
  obtain ⟨-, hnan⟩ := (always_trialInputs hints r.readFields trials).draw
    (.ofSeed (UInt64.ofNat seed))
  rw [checkProperties_of_some options hints trials seed h halone, List.filterMap_eq_nil_iff.mpr]
  exact fun input hinput => trial_of_no_rules hordered (hnan input hinput)

theorem passed_add_failed {report : PropertyReport} (h : report.failures.length ≤ report.trials) :
    report.passed + report.failed = report.trials :=
  Nat.sub_add_cancel h

theorem failed_eq_length {report : PropertyReport} {inputs : List Document}
    {trialOn : Document → Option PropertyFailure}
    (hfailures : report.failures = inputs.filterMap trialOn)
    (h : ∀ input ∈ inputs, trialOn input ≠ none) : report.failed = inputs.length := by
  rw [PropertyReport.failed, hfailures, List.length_filterMap_eq_countP, List.countP_eq_length]
  exact fun input hinput => Option.isSome_iff_ne_none.mpr (h input hinput)

/-- **What a property report says.**  There is one for every rule of the snapshot, and only for an
unknown id there is none.  Passed and failed trials add up, and there is one failure for each input
on which the trial fails, in their order.  No input holds a `nan`.  The trial of an enabled rule
passes exactly if the body fails on the input, or changes only declared leaves, gives no `nan`,
and on what it gives fails or leaves an equal document; that of a disabled rule passes always. -/
theorem property_report_exact (options : RunOptions) (hints : FieldHints) (s : Snapshot Id)
    (id : String) (trials seed : ℕ) :
    let outcome := (checkProperties options hints s id trials seed).run
    (∀ e, outcome = .error e ↔ s.registry.get? id = none ∧ e = .unknownRule id) ∧
    ∀ r, s.registry.get? id = some r →
      let inputs := (trialInputs hints r.readFields trials (.ofSeed (UInt64.ofNat seed))).1
      ∃ alone report, isolate r = .ok alone ∧ outcome = .ok report ∧
        inputs.length = trials ∧ report.passed + report.failed = trials ∧
        report.failures = inputs.filterMap (fun input => (trial options alone input).run) ∧
        ∀ input ∈ inputs, input.NanFree ∧
          (∀ f, (trial options alone input).run = some f → f.input = input) ∧
          ((trial options alone input).run = none ↔ r.enabled = false ∨ r.Passes input) := by
  intro outcome
  cases hget : s.registry.get? id with
  | none =>
    have houtcome : outcome = .error (.unknownRule id) := checkProperties_of_none hget
    refine ⟨fun e => ?_, fun r hr => nomatch hr⟩
    rw [houtcome, Except.error.injEq, eq_comm]
    simp
  | some r =>
    obtain ⟨alone, halone, hordered⟩ := exists_isolate r
    have houtcome := checkProperties_of_some options hints trials seed hget halone
    refine ⟨fun e => ?_, ?_⟩
    · rw [show outcome = _ from houtcome]
      simp
    · rintro r' ⟨⟩ inputs
      obtain ⟨hlength, hnan⟩ := (always_trialInputs hints r.readFields trials).draw
        (.ofSeed (UInt64.ofNat seed))
      refine ⟨alone, _, halone, houtcome, hlength, passed_add_failed ?_, rfl,
        fun input hinput => ⟨hnan input hinput, fun f hf => ?_, ?_⟩⟩
      · exact (List.length_filterMap_le ..).trans hlength.le
      · exact input_of_verdict (trial_eq_verdict.symm.trans hf)
      · cases henabled : r.enabled <;> rw [henabled] at hordered
        · exact iff_of_true (trial_of_no_rules hordered (hnan input hinput)) (Or.inl rfl)
        · rw [trial_passes_iff hordered (hnan input hinput)]
          simp

/-! ### A rule that never rests -/

namespace Counting

/-- The number behind this one, or one if there is none. -/
def next : Option Value → Int64
  | some (.int i) => i + 1
  | _ => 1

/-- A rule that counts its invocations at a key. -/
def rule (enabled : Bool) : Rule Id where
  id := "r"
  name := "r"
  version := defaultVersion
  builtIn := false
  enabled := enabled
  body := .native "increment" fun d =>
    .ok (d.setScalar [.key "n"] (.int (next (d.value.get? [.key "n"]))))
  reads := .ofList [[.key "n"]]
  writes := .ofList [[.key "n"]]
  description := none
  updatedAt := none
  codeHash := ""

def snapshot (enabled : Bool) : Snapshot Id :=
  ⟨⟨[rule enabled]⟩, if enabled then ⟨["r"], ⟨[[]]⟩, [0]⟩ else ⟨[], ⟨[]⟩, []⟩⟩

theorem child?_setScalar (d : Document) (k : Int64) :
    (d.setScalar [.key "n"] (.int k)).value.child? (.key "n") = some (.int k) :=
  Value.child?_putChild_self ..

theorem get?_setScalar (d : Document) (k : Int64) :
    (d.setScalar [.key "n"] (.int k)).value.get? [.key "n"] = some (.int k) :=
  Value.get?_set_self ..

/-- Nothing that it gives is left as it is. -/
theorem not_passes (enabled : Bool) (d : Document) : ¬ (rule enabled).Passes d := by
  intro h
  cases h with
  | failed answer => cases answer
  | settled answer _ _ rests =>
    cases answer
    rcases rests with ⟨failure, answer⟩ | ⟨e, answer, hequal⟩
    · cases answer
    · cases answer
      -- The second invocation gives the number behind that of the first one.
      have hsame := Value.sameValue_child? hequal (.key "n")
      rw [child?_setScalar, child?_setScalar, get?_setScalar] at hsame
      exact absurd hsame (by simp [Mutation.sameValue, Value.equal, next])

end Counting

/-- If the rule is enabled, every trial fails. -/
theorem property_report_exact_counting :
    ∃ report, (checkProperties .minimal [] (Counting.snapshot true) "r" 2 1).run = .ok report ∧
      report.passed = 0 ∧ report.failed = 2 := by
  obtain ⟨-, hreport⟩ := property_report_exact .minimal [] (Counting.snapshot true) "r" 2 1
  obtain ⟨alone, report, -, houtcome, hlength, hsum, hfailures, hinputs⟩ :=
    hreport (Counting.rule true) rfl
  have hfailed : report.failed = 2 := by
    refine (failed_eq_length hfailures fun input hinput hpassed => ?_).trans hlength
    rcases (hinputs input hinput).2.2.mp hpassed with hdisabled | hpasses
    · cases hdisabled
    · exact Counting.not_passes true input hpasses
  exact ⟨report, houtcome, by omega, hfailed⟩

/-- If it is disabled, every trial passes, although its body is the same. -/
theorem disabled_rule_passes :
    ∃ report, (checkProperties .minimal [] (Counting.snapshot false) "r" 2 1).run = .ok report ∧
      report.passed = 2 ∧ report.failed = 0 ∧
      ∀ input, ¬ (Counting.rule false).Passes input :=
  ⟨_, checkProperties_of_disabled rfl rfl, rfl, rfl, Counting.not_passes false⟩

end DocumentRules
