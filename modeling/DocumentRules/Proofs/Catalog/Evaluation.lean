/-
The outcomes of a catalog.

* **`passed_ofRun_iff`** — a case whose run completes passes if nothing in it fails to hold;
* **`Catalog.mem_coverage_iff`** — a catalog covers what the completed runs of its enabled cases
  cover;
* **`Catalog.Fresh.coverage_upsert`** — a further case adds what its run covers;
* **`coverage_unites_cases`** — so the coverage is the union over the cases, for which only the
  inputs of the enabled ones count, and further cases never take anything away.
-/
import DocumentRules.Catalog.Outcome
import DocumentRules.Proofs.Run.Frame

namespace DocumentRules

variable {options : RunOptions} {s : Snapshot Id}

theorem evaluate_run (options : RunOptions) (s : Snapshot Id) (c : TestCase) :
    (evaluate options s c).run = .ofRun c (run options s c.input).run := rfl

theorem evaluateAll_run (options : RunOptions) (s : Snapshot Id) (cs : List TestCase) :
    (evaluateAll options s cs).run = cs.map fun c => .ofRun c (run options s c.input).run := by
  induction cs with
  | nil => rfl
  | cons c cs ih =>
    rw [List.map_cons, ← ih]
    rfl

theorem passed_ofRun_iff {c : TestCase} {r : RunResult} :
    (TestOutcome.ofRun c (.ok r)).passed = true ↔
      compare c.expected.value r.after.value = [] := by
  simp only [TestOutcome.ofRun, TestOutcome.passed]
  cases compare c.expected.value r.after.value <;> simp

/-- The changes of an outcome are those of a completed run. -/
theorem mem_mutations_ofRun {c : TestCase} {outcome : Except RunError RunResult} {b : Mutation} :
    (TestOutcome.ofRun c outcome).completed = true ∧ b ∈ (TestOutcome.ofRun c outcome).mutations ↔
      ∃ r, outcome = .ok r ∧ b ∈ r.mutations := by
  cases outcome with
  | error err => simp [TestOutcome.ofRun, TestOutcome.completed]
  | ok r =>
    have hcompleted : (TestOutcome.ofRun c (.ok r)).completed = true := by
      simp only [TestOutcome.ofRun, TestOutcome.completed]
      cases compare c.expected.value r.after.value <;> simp
    simp only [hcompleted, true_and, Except.ok.injEq, exists_eq_left']
    rfl

/-- The facts of outcomes are those of the runs that give results. -/
theorem Coverage.mem_ofOutcomes {α : Type} {as : List α} {test : α → TestCase}
    {outcome : α → Except RunError RunResult} {f : Fact} :
    f ∈ ofOutcomes (as.map fun a => .ofRun (test a) (outcome a)) ↔
      ∃ a ∈ as, ∃ r, outcome a = .ok r ∧ f ∈ ofMutations r.mutations := by
  simp only [ofOutcomes, mem_ofMutations, List.mem_flatMap, List.mem_filter, List.mem_map]
  constructor
  · rintro ⟨b, ⟨_, ⟨⟨a, ha, rfl⟩, hcompleted⟩, hb⟩, hf⟩
    obtain ⟨r, hr, hbr⟩ := mem_mutations_ofRun.mp ⟨hcompleted, hb⟩
    exact ⟨a, ha, r, hr, b, hbr, hf⟩
  · rintro ⟨a, ha, r, hr, b, hbr, hf⟩
    obtain ⟨hcompleted, hb⟩ := mem_mutations_ofRun.mpr ⟨r, hr, hbr⟩
    exact ⟨b, ⟨_, ⟨⟨a, ha, rfl⟩, hcompleted⟩, hb⟩, hf⟩

namespace Catalog

theorem mem_enabled {g : Catalog} {c : TestCase} :
    c ∈ g.enabled ↔ c ∈ g.cases ∧ c.enabled = true := by
  simp [enabled, select, mem_sortBy, TestFilter.admits]

/-- **A catalog covers what the completed runs of its enabled cases cover.** -/
theorem mem_coverage_iff {g : Catalog} {f : Coverage.Fact} :
    f ∈ (g.coverage options s).run ↔
      ∃ c ∈ g.cases, c.enabled = true ∧
        ∃ r, (run options s c.input).run = .ok r ∧ f ∈ Coverage.ofMutations r.mutations := by
  have hrun : (g.coverage options s).run =
      .ofOutcomes (g.enabled.map fun c => .ofRun c (run options s c.input).run) := by
    rw [← evaluateAll_run]
    rfl
  rw [hrun, Coverage.mem_ofOutcomes]
  simp only [mem_enabled, and_assoc]

/-- No case has the id of this one, if it has one. -/
def Fresh (g : Catalog) (c : TestCase) : Prop := ∀ id, c.id = some id → g.get? id = none

theorem upsertInto_of_forall {c : TestCase} {cs : List TestCase}
    (h : ∀ id, c.id = some id → ∀ d ∈ cs, d.id ≠ some id) : upsertInto c cs = cs ++ [c] := by
  induction cs with
  | nil => rfl
  | cons d ds ih =>
    have hother : (c.id.isSome && d.id == c.id) = false := by
      cases hid : c.id with
      | none => rfl
      | some id => simpa using h id hid d (List.mem_cons_self ..)
    rw [upsertInto, hother, if_neg Bool.false_ne_true, List.cons_append,
      ih fun id hid e he => h id hid e (List.mem_cons_of_mem d he)]

/-- A fresh case comes behind the others. -/
theorem Fresh.upsert_cases {g : Catalog} {c : TestCase} (h : g.Fresh c) :
    (g.upsert c).cases = g.cases ++ [c] := by
  refine upsertInto_of_forall fun id hid d hd => ?_
  have hnone := List.find?_eq_none.mp (h id hid) d hd
  simpa [TestCase.hasId] using hnone

/-- **A fresh case adds what its run covers.** -/
theorem Fresh.coverage_upsert {g : Catalog} {c : TestCase} {r : RunResult} (h : g.Fresh c)
    (henabled : c.enabled = true) (hr : (run options s c.input).run = .ok r) :
    ((g.upsert c).coverage options s).run =
      (g.coverage options s).run.union (Coverage.ofMutations r.mutations) := by
  refine OrderedSet.ext fun f => ?_
  rw [OrderedSet.mem_union, mem_coverage_iff, mem_coverage_iff, h.upsert_cases]
  simp only [List.mem_append, List.mem_singleton, or_and_right, exists_or, exists_eq_left,
    henabled, hr, Except.ok.injEq, exists_eq_left', true_and]

end Catalog

/-! ### The union over the cases -/

/-- The case is enabled, and in its run, which gives a result, a change of the rule touches the
leaf.  Whether it passes does not matter. -/
def TestCase.Covers (options : RunOptions) (s : Snapshot Id) (c : TestCase) (f : Coverage.Fact) :
    Prop :=
  c.enabled = true ∧ ∃ r, (run options s c.input).run = .ok r ∧
    ∃ b ∈ r.mutations, b.rule = some f.rule ∧ f.path ∈ b.touchedLeaves

namespace Catalog

/-- An enabled case has this input. -/
def Tries (g : Catalog) (d : Document) : Prop := ∃ c ∈ g.cases, c.enabled = true ∧ c.input = d

theorem mem_coverage_iff_covers {g : Catalog} {f : Coverage.Fact} :
    f ∈ (g.coverage options s).run ↔ ∃ c ∈ g.cases, c.Covers options s f := by
  simp only [mem_coverage_iff, Coverage.mem_ofMutations, Mutation.mem_facts, TestCase.Covers]

/-- Which facts there are depends on the inputs that are tried. -/
theorem mem_coverage_iff_tries {g : Catalog} {f : Coverage.Fact} :
    f ∈ (g.coverage options s).run ↔
      ∃ d, g.Tries d ∧
        ∃ r, (run options s d).run = .ok r ∧ f ∈ Coverage.ofMutations r.mutations := by
  rw [mem_coverage_iff]
  constructor
  · rintro ⟨c, hc, henabled, hf⟩
    exact ⟨c.input, ⟨c, hc, henabled, rfl⟩, hf⟩
  · rintro ⟨_, ⟨c, hc, henabled, rfl⟩, hf⟩
    exact ⟨c, hc, henabled, hf⟩

theorem coverage_append (options : RunOptions) (s : Snapshot Id) (cs ds : List TestCase) :
    (coverage options s ⟨cs ++ ds⟩).run =
      (coverage options s ⟨cs⟩).run.union (coverage options s ⟨ds⟩).run := by
  refine OrderedSet.ext fun f => ?_
  simp only [OrderedSet.mem_union, mem_coverage_iff_covers, List.mem_append, or_and_right,
    exists_or]

end Catalog

/-- **Coverage is a union over cases.**  A catalog covers what its enabled cases cover, passing or
failing, whose runs give results; what the runs do is decided by the inputs alone, so catalogs
that try the same inputs cover the same.  Two lists of cases cover together what each of them
covers, and a case under a new id never takes a fact away. -/
theorem coverage_unites_cases (options : RunOptions) (s : Snapshot Id) :
    (∀ (g : Catalog) f,
      f ∈ (g.coverage options s).run ↔ ∃ c ∈ g.cases, c.Covers options s f) ∧
      (∀ g h : Catalog, (∀ d, g.Tries d ↔ h.Tries d) →
        (g.coverage options s).run = (h.coverage options s).run) ∧
      (∀ cs ds : List TestCase, (Catalog.coverage options s ⟨cs ++ ds⟩).run =
        (Catalog.coverage options s ⟨cs⟩).run.union (Catalog.coverage options s ⟨ds⟩).run) ∧
      ∀ (g : Catalog) (c : TestCase), g.Fresh c →
        ∀ f ∈ (g.coverage options s).run, f ∈ ((g.upsert c).coverage options s).run := by
  refine ⟨fun g f => Catalog.mem_coverage_iff_covers, fun g h hinputs => ?_,
    Catalog.coverage_append options s, fun g c hfresh f hf => ?_⟩
  · refine OrderedSet.ext fun f => ?_
    simp only [Catalog.mem_coverage_iff_tries, hinputs]
  · rw [Catalog.mem_coverage_iff_covers, hfresh.upsert_cases]
    obtain ⟨c', hc', hcovers⟩ := Catalog.mem_coverage_iff_covers.mp hf
    exact ⟨c', List.mem_append_left _ hc', hcovers⟩

namespace Chained

/-- A case with this name and input that expects this of the output. -/
def expecting (name : String) (input expected : Document) : TestCase where
  id := some name
  name := name
  enabled := true
  suite := none
  tags := ∅
  priority := 0
  input := input
  expected := expected

/-- A case that fails, and one whose run is aborted: the rule would replace the whole document. -/
def catalog : Catalog := ⟨[expecting "fails" document .null, expecting "aborts" .null .null]⟩

/-- The same inputs in another order and in other cases, one of them twice. -/
def rearranged : Catalog :=
  ⟨[expecting "late" .null document, { expecting "first" document document with priority := 7 },
    { expecting "off" .emptyMap .emptyMap with enabled := false },
    expecting "again" document .null]⟩

end Chained

open Chained in
/-- Both catalogs cover what the run covers that gives a result, and one more case leaves it. -/
theorem coverage_unites_cases_chained :
    (run {} snapshot .null).run = .error (.undeclaredWrite "first" .root) ∧
      (rearranged.coverage {} snapshot).run = (catalog.coverage {} snapshot).run ∧
      (rearranged.coverage {} snapshot).run.toList =
        [⟨"first", [.key "b"]⟩, ⟨"second", [.key "c"]⟩] ∧
      rearranged.Fresh (expecting "new" .emptyMap .null) ∧
      (⟨"first", [.key "b"]⟩ : Coverage.Fact) ∈
        ((rearranged.upsert (expecting "new" .emptyMap .null)).coverage {} snapshot).run := by
  have hinputs (d : Document) : rearranged.Tries d ↔ catalog.Tries d := by
    simp [Catalog.Tries, rearranged, catalog, expecting, or_comm]
  have hcovered : (rearranged.coverage {} snapshot).run.toList =
      [⟨"first", [.key "b"]⟩, ⟨"second", [.key "c"]⟩] := rfl
  have hfresh : rearranged.Fresh (expecting "new" .emptyMap .null) := by
    rintro _ ⟨⟩
    rfl
  obtain ⟨-, hsame, -, hkeeps⟩ := coverage_unites_cases {} snapshot
  refine ⟨rfl, hsame _ _ hinputs, hcovered, hfresh, hkeeps _ _ hfresh _ ?_⟩
  rw [← OrderedSet.mem_toList, hcovered]
  exact List.mem_cons_self ..

end DocumentRules
