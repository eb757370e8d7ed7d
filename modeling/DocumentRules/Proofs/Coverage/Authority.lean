/-
Facts and authority.

A fact says that a rule touched a leaf, and only an enabled rule that declares a write covering
the leaf can have done so.  Whatever the rule bodies do, the coverage of a catalog is read off
the evaluations of its cases, which keep the turns of the runs:

* **`TakeTurns.mem_facts_iff`** — a turn gives a fact for each leaf that its rule has changed,
  and for no other;
* **`mem_ofEvaluations`** — so the facts are the leaves that rules have changed in the runs that
  give results;
* **`facts_respect_authority`** — a fact names an enabled rule with authority over its leaf, the
  facts of two rules stay apart, and a declared write is uncovered exactly if its rule has never
  changed a leaf at or below it.
-/
import DocumentRules.Proofs.Catalog.Evaluation
import DocumentRules.Proofs.Coverage.Gaps

namespace DocumentRules

variable {m : Type → Type}

/-! ### The facts of a turn -/

/-- The rule of the turn changed the leaf; a rule whose body fails changes nothing. -/
def Turn.ChangedLeaf (t : Turn m) (q : Path) : Prop :=
  match t.result with
  | .failed _ => False
  | .completed after _ => Value.ChangedLeaf t.before.value after.value q

/-- **A turn gives a fact for each leaf that its rule has changed**, and for no other. -/
theorem TakeTurns.mem_facts_iff {rs : List (Rule m)} {d : Document} {ts : List (Turn m)}
    (h : TakeTurns rs d ts) {t : Turn m} (ht : t ∈ ts) {f : Coverage.Fact} :
    f ∈ t.changes.flatMap Mutation.facts ↔ f.rule = t.rule.id ∧ t.ChangedLeaf f.path := by
  induction h with
  | nil => cases ht
  | failed r failure _ ih =>
    rcases List.mem_cons.mp ht with rfl | ht
    · simp [Turn.changes, Turn.ChangedLeaf]
    · exact ih ht
  | completed r _ _ ih =>
    rcases List.mem_cons.mp ht with rfl | ht
    · exact mem_facts_diffBy
    · exact ih ht

/-! ### Evaluations -/

/-- A case that has been run, with the turns of the run, or with what ended it. -/
structure Evaluation (m : Type → Type) where
  test : TestCase
  outcome : Except RunError (List (Turn m))

/-- The cases are run one after another. -/
def evaluations [Monad m] (s : Snapshot m) : List TestCase → m (List (Evaluation m))
  | [] => return []
  | c :: cs => do
    let outcome ← trace s.orderedRules c.input
    return ⟨c, outcome⟩ :: (← evaluations s cs)

namespace Evaluation

variable {e : Evaluation m}

/-- The outcome that is reported of the case. -/
def report (options : RunOptions) (e : Evaluation m) : TestOutcome :=
  .ofRun e.test (e.outcome.map (RunResult.ofTurns options e.test.input))

/-- The run gave a result, and in it the rule changed a leaf at or below the path. -/
def Changes (e : Evaluation m) (r : Rule m) (p : Path) : Prop :=
  ∃ turns, e.outcome = .ok turns ∧ ∃ t ∈ turns, t.rule = r ∧ ∃ q, p <+: q ∧ t.ChangedLeaf q

/-- If the run gave a result, the rules of the snapshot took turns in it. -/
def Sound (s : Snapshot m) (e : Evaluation m) : Prop :=
  ∀ turns, e.outcome = .ok turns → TakeTurns s.orderedRules e.test.input turns

end Evaluation

/-- The facts of the evaluations. -/
def Coverage.ofEvaluations (options : RunOptions) (es : List (Evaluation m)) : Coverage :=
  .ofOutcomes (es.map (Evaluation.report options))

section Evaluations

variable [Monad m] [LawfulMonad m]

/-- Every evaluation is that of a case, in a run in which the rules take turns. -/
theorem evaluations_sound (s : Snapshot m) (cs : List TestCase) :
    Always (fun es => es.map Evaluation.test = cs ∧ ∀ e ∈ es, e.Sound s) (evaluations s cs) := by
  induction cs with
  | nil => exact always_pure ⟨rfl, fun e he => absurd he List.not_mem_nil⟩
  | cons c cs ih =>
    refine (trace_takeTurns s.orderedRules c.input).bind fun outcome houtcome => ?_
    refine ih.bind fun es hes => always_pure ⟨?_, ?_⟩
    · rw [List.map_cons, hes.1]
    · exact List.forall_mem_cons.mpr ⟨houtcome, hes.2⟩

/-- The outcomes of the cases are the reports of their evaluations. -/
theorem evaluateAll_eq (options : RunOptions) (s : Snapshot m) (cs : List TestCase) :
    evaluateAll options s cs = List.map (Evaluation.report options) <$> evaluations s cs := by
  induction cs with
  | nil => simp [evaluateAll, evaluations]
  | cons c cs ih => simp [evaluateAll, evaluations, evaluate, run_eq_trace, ih, Evaluation.report]

theorem coverage_eq_ofEvaluations (options : RunOptions) (s : Snapshot m) (g : Catalog) :
    g.coverage options s = Coverage.ofEvaluations options <$> evaluations s g.enabled := by
  simp only [Catalog.coverage, evaluateAll_eq, bind_pure_comp, Functor.map_map]
  rfl

end Evaluations

/-- Where the bodies are functions of the document, every case has one evaluation. -/
theorem evaluations_run (s : Snapshot Id) (cs : List TestCase) :
    (evaluations s cs).run = cs.map fun c => ⟨c, (trace s.orderedRules c.input).run⟩ := by
  induction cs with
  | nil => rfl
  | cons c cs ih =>
    rw [List.map_cons, ← ih]
    rfl

/-! ### What the facts say -/

variable {g : Registry m} {s : Snapshot m} {es : List (Evaluation m)}

/-- **The facts are the leaves that rules have changed** in the runs that give results. -/
theorem Coverage.mem_ofEvaluations (hes : ∀ e ∈ es, e.Sound s) {options : RunOptions} {f : Fact} :
    f ∈ ofEvaluations options es ↔
      ∃ e ∈ es, ∃ turns, e.outcome = .ok turns ∧
        ∃ t ∈ turns, f.rule = t.rule.id ∧ t.ChangedLeaf f.path := by
  have hreports : ofEvaluations options es = ofOutcomes (es.map fun e =>
      .ofRun e.test (e.outcome.map (RunResult.ofTurns options e.test.input))) := rfl
  rw [hreports, mem_ofOutcomes]
  refine exists_congr fun e => and_congr_right fun he => ?_
  constructor
  · rintro ⟨_, hr, hf⟩
    obtain ⟨turns, hturns, rfl⟩ := map_eq_ok hr
    obtain ⟨t, ht, hf⟩ := mem_ofTurns.mp hf
    exact ⟨turns, hturns, t, ht, ((hes e he turns hturns).mem_facts_iff ht).mp hf⟩
  · rintro ⟨turns, hturns, t, ht, hf⟩
    refine ⟨_, by rw [hturns]; rfl, mem_ofTurns.mpr ⟨t, ht, ?_⟩⟩
    exact ((hes e he turns hturns).mem_facts_iff ht).mpr hf

/-- What the facts of some evaluations say of the rules of a registry. -/
structure Coverage.RespectsAuthority (covered : Coverage) (g : Registry m)
    (es : List (Evaluation m)) : Prop where
  /-- A fact names an enabled rule that declares a write covering the leaf. -/
  declared : ∀ f ∈ covered, ∃ r ∈ g.enabledRules, r.id = f.rule ∧ ∃ w ∈ r.writes, w <+: f.path
  /-- The facts of two rules are about paths that do not overlap. -/
  apart : ∀ f ∈ covered, ∀ f' ∈ covered, f.rule ≠ f'.rule → ¬ Path.overlaps f.path f'.path = true
  /-- A declared write is uncovered if no run has its rule change a leaf at or below it. -/
  uncovered : ∀ r ∈ g.enabledRules, ∀ w ∈ r.writes,
    w ∈ covered.uncoveredWrites r ↔ ¬ ∃ e ∈ es, e.Changes r w

/-- The rule of a turn is an enabled one, and it declares a write covering each leaf that it has
changed. -/
theorem TakeTurns.declared (hg : g.Reachable) (hs : Snapshot.ofRegistry g = .ok s) {d : Document}
    {ts : List (Turn m)} (h : TakeTurns s.orderedRules d ts) {t : Turn m} (ht : t ∈ ts) :
    t.rule ∈ g.enabledRules ∧
      ∀ q, t.ChangedLeaf q → ∃ w ∈ t.rule.writes, w <+: q := by
  constructor
  · rw [← Registry.mem_orderedRules_iff hg.compatible hs, ← h.map_rule]
    exact List.mem_map_of_mem ht
  · intro q hq
    have hfact := (h.mem_facts_iff ht (f := ⟨t.rule.id, q⟩)).mpr ⟨rfl, hq⟩
    obtain ⟨b, hb, hf⟩ := List.mem_flatMap.mp hfact
    have hauthorised := ((h.authorised ht).changes b hb).2 q (Mutation.mem_facts.mp hf).2
    exact Rule.declaresWrite_iff.mp hauthorised

theorem respectsAuthority_ofEvaluations (hg : g.Reachable) (hs : Snapshot.ofRegistry g = .ok s)
    (hes : ∀ e ∈ es, e.Sound s) (options : RunOptions) :
    (Coverage.ofEvaluations options es).RespectsAuthority g es := by
  have hdeclared : ∀ f ∈ Coverage.ofEvaluations options es,
      ∃ r ∈ g.enabledRules, r.id = f.rule ∧ ∃ w ∈ r.writes, w <+: f.path := by
    intro f hf
    obtain ⟨e, he, turns, hturns, t, ht, hrule, hchanged⟩ := (Coverage.mem_ofEvaluations hes).mp hf
    obtain ⟨henabled, hwrites⟩ := (hes e he turns hturns).declared hg hs ht
    exact ⟨t.rule, henabled, hrule.symm, hwrites f.path hchanged⟩
  refine ⟨hdeclared, ?_, ?_⟩
  · intro f hf f' hf' hne hover
    obtain ⟨r, hr, hid, w, hw, hcovers⟩ := hdeclared f hf
    obtain ⟨r', hr', hid', w', hw', hcovers'⟩ := hdeclared f' hf'
    rw [Registry.mem_enabledRules] at hr hr'
    have hrules : r ≠ r' := by
      rintro rfl
      exact hne (hid.symm.trans hid')
    have hcompatible : r.Compatible r' := List.Pairwise.forall hg.compatible hr.1 hr'.1 hrules
    exact hcompatible.writes hr.2 hr'.2 w hw w' hw'
      (Path.overlaps_of_covers hcovers hcovers' hover)
  · intro r hr w hw
    rw [Coverage.mem_uncoveredWrites, ← Bool.not_eq_true, Coverage.exercises_iff,
      and_iff_right hw, not_iff_not]
    constructor
    · rintro ⟨f, hf, hid, hbelow⟩
      obtain ⟨e, he, turns, hturns, t, ht, hrule, hchanged⟩ :=
        (Coverage.mem_ofEvaluations hes).mp hf
      have henabled := ((hes e he turns hturns).declared hg hs ht).1
      rw [Registry.mem_enabledRules] at hr henabled
      have hsame : t.rule = r :=
        Rule.eq_of_id hg.compatible henabled.1 hr.1 (hrule.symm.trans hid)
      exact ⟨e, he, turns, hturns, t, ht, hsame, f.path, hbelow, hchanged⟩
    · rintro ⟨e, he, turns, hturns, t, ht, rfl, q, hbelow, hchanged⟩
      exact ⟨⟨t.rule.id, q⟩, (Coverage.mem_ofEvaluations hes).mpr
        ⟨e, he, turns, hturns, t, ht, rfl, hchanged⟩, rfl, hbelow⟩

/-- **Coverage facts respect authority.**  Every fact names an enabled rule with a declared write
covering its path, the facts of different rules are about paths that do not overlap, and a
declared write of an enabled rule is uncovered exactly if in no run that gives a result, of an
enabled case, its rule has changed a leaf at or below it.  This holds where the bodies are
functions of the document, and of every evaluation of the catalog whatever the bodies do. -/
theorem facts_respect_authority (options : RunOptions) (catalog : Catalog) :
    (∀ (g : Registry Id) (s : Snapshot Id), g.Reachable → Snapshot.ofRegistry g = .ok s →
      (catalog.coverage options s).run.RespectsAuthority g
        (catalog.enabled.map fun c => ⟨c, (trace s.orderedRules c.input).run⟩)) ∧
    ∀ (m : Type → Type) [Monad m] [LawfulMonad m] (g : Registry m) (s : Snapshot m),
      g.Reachable → Snapshot.ofRegistry g = .ok s →
        catalog.coverage options s =
            Coverage.ofEvaluations options <$> evaluations s catalog.enabled ∧
          Always (fun es => es.map Evaluation.test = catalog.enabled ∧
            (Coverage.ofEvaluations options es).RespectsAuthority g es)
            (evaluations s catalog.enabled) := by
  have hany (m : Type → Type) [Monad m] [LawfulMonad m] (g : Registry m) (s : Snapshot m)
      (hg : g.Reachable) (hs : Snapshot.ofRegistry g = .ok s) :
      Always (fun es => es.map Evaluation.test = catalog.enabled ∧
        (Coverage.ofEvaluations options es).RespectsAuthority g es)
        (evaluations s catalog.enabled) :=
    (evaluations_sound s catalog.enabled).imp fun es hes =>
      ⟨hes.1, respectsAuthority_ofEvaluations hg hs hes.2 options⟩
  refine ⟨fun g s hg hs => ?_, fun m _ _ g s hg hs =>
    ⟨coverage_eq_ofEvaluations options s catalog, hany m g s hg hs⟩⟩
  rw [coverage_eq_ofEvaluations, Id.run_map, ← evaluations_run]
  exact (always_id.mp (hany Id g s hg hs)).2

namespace Chained

/-- The one run of this catalog is aborted. -/
def aborting : Catalog := ⟨[expecting "aborts" .null .null]⟩

end Chained

open Chained in
/-- Both rules have facts, each below its own write, because one of the runs has changed the leaf;
as long as the only run is aborted, the write of the first one is uncovered. -/
theorem facts_respect_authority_chained :
    registry.Reachable ∧ Snapshot.ofRegistry registry = .ok snapshot ∧
      (catalog.coverage {} snapshot).run.toList.map (·.rule) = ["first", "second"] ∧
      (∀ f ∈ (catalog.coverage {} snapshot).run,
        ∃ r ∈ registry.enabledRules, r.id = f.rule ∧ ∃ w ∈ r.writes, w <+: f.path) ∧
      (∃ c ∈ catalog.enabled, Evaluation.Changes ⟨c, (trace snapshot.orderedRules c.input).run⟩
        (copying "first" "a" "b") [.key "b"]) ∧
      [.key "b"] ∈ (aborting.coverage {} snapshot).run.uncoveredWrites
        (copying "first" "a" "b") := by
  have hcatalog := (facts_respect_authority {} catalog).1 registry snapshot reachable ofRegistry_eq
  have haborting :=
    (facts_respect_authority {} aborting).1 registry snapshot reachable ofRegistry_eq
  have hrule : copying "first" "a" "b" ∈ registry.enabledRules := by
    rw [registry_eq]
    exact List.mem_cons_self ..
  have hwrite : [.key "b"] ∈ (copying "first" "a" "b").writes := by decide
  have hcovered : [.key "b"] ∉
      (catalog.coverage {} snapshot).run.uncoveredWrites (copying "first" "a" "b") := by
    decide
  refine ⟨reachable, ofRegistry_eq, rfl, hcatalog.declared, ?_, ?_⟩
  · rw [hcatalog.uncovered _ hrule _ hwrite, not_not] at hcovered
    obtain ⟨_, he, hchanges⟩ := hcovered
    obtain ⟨c, hc, rfl⟩ := List.mem_map.mp he
    exact ⟨c, hc, hchanges⟩
  · rw [haborting.uncovered _ hrule _ hwrite]
    rintro ⟨_, he, turns, hturns, -⟩
    obtain rfl := List.mem_singleton.mp he
    cases hturns

end DocumentRules
