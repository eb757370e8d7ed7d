/-
The counters of a field report.

A case asserts fields and its run changes some; the report counts, for every field that some case
asserts or whose own path some run changed, the cases of which one or the other holds.  Only cases
that have to do with the field in this sense are looked at: a run that changed the field by way of
another path, for a case that does not assert it, is left out of `mutated`.

* `TestCase.Asserts`, `TestOutcome.Changes`, `TestOutcome.Mutates`, `Verdict.Upholds` — what a
  case and its outcome say about a field;
* **`FieldSummary.find?_countCase`** — what one case does to the line of a field;
* **`FieldSummary.find?_foldl_countCase`** — the line of a field after a row of cases;
* **`mem_fieldReport`** — the lines of a report;
* **`FieldCoverage.counted_fieldReport`** — what a report counts for a field, with a line or not;
* **`field_report_counts`** — the counters in words, and the order of the lines;
* **`field_report_adds_up`** — the reports on two lists of cases add up to that on both.
-/
import DocumentRules.Catalog.FieldReport
import DocumentRules.Proofs.Document.Sameness
import Mathlib.Data.List.Induction

namespace DocumentRules

/-! ### What a case and its outcome say -/

/-- The fragment of the case asserts the field. -/
def TestCase.Asserts (c : TestCase) (p : Path) : Prop := p ∈ assertedFields c.expected.value

instance (c : TestCase) (p : Path) : Decidable (c.Asserts p) :=
  inferInstanceAs (Decidable (p ∈ assertedFields c.expected.value))

/-- The change counts in a report: it is one of the rule, if the report is about a rule. -/
def Mutation.CountsFor (rule : Option String) (b : Mutation) : Prop := rule = none ∨ b.rule = rule

instance (rule : Option String) (b : Mutation) : Decidable (b.CountsFor rule) :=
  inferInstanceAs (Decidable (_ ∨ _))

namespace TestOutcome

/-- The run has a change at this very path. -/
def Changes (rule : Option String) (o : TestOutcome) (p : Path) : Prop :=
  ∃ b ∈ o.mutations, b.CountsFor rule ∧ b.path = p

/-- The run has a change at a path that overlaps the field. -/
def Mutates (rule : Option String) (o : TestOutcome) (p : Path) : Prop :=
  ∃ b ∈ o.mutations, b.CountsFor rule ∧ Path.overlaps b.path p = true

instance (rule : Option String) (o : TestOutcome) (p : Path) : Decidable (o.Changes rule p) :=
  inferInstanceAs (Decidable (∃ b ∈ o.mutations, _))

instance (rule : Option String) (o : TestOutcome) (p : Path) : Decidable (o.Mutates rule p) :=
  inferInstanceAs (Decidable (∃ b ∈ o.mutations, _))

end TestOutcome

/-- The outcome is no error, and no mismatch is reported at the path. -/
def Verdict.Upholds : Verdict → Path → Prop
  | .pass, _ => True
  | .fail mismatches, p => ∀ m ∈ mismatches, m.path ≠ p
  | .error _, _ => False

instance : (v : Verdict) → (p : Path) → Decidable (v.Upholds p)
  | .pass, _ => isTrue trivial
  | .fail mismatches, p => inferInstanceAs (Decidable (∀ m ∈ mismatches, m.path ≠ p))
  | .error _, _ => isFalse id

variable {rule : Option String} {c : TestCase} {o : TestOutcome} {p : Path}
  {evaluated xs ys : List (TestCase × TestOutcome)} {f g : FieldCoverage}

namespace FieldEvidence

theorem mem_asserted_ofOutcome : p ∈ (ofOutcome rule c o).asserted ↔ c.Asserts p :=
  OrderedSet.mem_ofList

theorem mem_mutated_ofOutcome : p ∈ (ofOutcome rule c o).mutated ↔ o.Changes rule p := by
  have hcounts (b : Mutation) :
      (rule.all fun r => b.rule == some r) = true ↔ b.CountsFor rule := by
    cases rule <;> simp [Mutation.CountsFor]
  simp only [ofOutcome, OrderedSet.mem_ofList, List.mem_map, List.mem_filter, hcounts, and_assoc,
    TestOutcome.Changes]

theorem mem_fields_ofOutcome :
    p ∈ (ofOutcome rule c o).fields ↔ c.Asserts p ∨ o.Changes rule p := by
  rw [fields, OrderedSet.mem_union, mem_asserted_ofOutcome, mem_mutated_ofOutcome]

theorem tests_ofOutcome : (ofOutcome rule c o).tests p = true ↔ c.Asserts p := by
  simp only [tests, decide_eq_true_eq, mem_asserted_ofOutcome]

theorem mutates_ofOutcome : (ofOutcome rule c o).mutates p = true ↔ o.Mutates rule p := by
  simp only [mutates, List.any_eq_true, OrderedSet.mem_toList, mem_mutated_ofOutcome,
    TestOutcome.Changes, TestOutcome.Mutates]
  constructor
  · rintro ⟨_, ⟨b, hb, hcounts, rfl⟩, hoverlap⟩
    exact ⟨b, hb, hcounts, hoverlap⟩
  · rintro ⟨b, hb, hcounts, hoverlap⟩
    exact ⟨b.path, ⟨b, hb, hcounts, rfl⟩, hoverlap⟩

/-- In an aborted run all asserted fields have failed. -/
theorem mem_failed_ofOutcome (h : c.Asserts p) :
    p ∈ (ofOutcome rule c o).failed ↔ ¬ o.verdict.Upholds p := by
  cases hverdict : o.verdict with
  | pass => simp [ofOutcome, hverdict, Verdict.Upholds]
  | fail mismatches => simp [ofOutcome, hverdict, Verdict.Upholds]
  | error message =>
    simp only [ofOutcome, hverdict, OrderedSet.mem_ofList, Verdict.Upholds, not_false_eq_true,
      iff_true]
    exact h

theorem passes_ofOutcome :
    (ofOutcome rule c o).passes p = true ↔ c.Asserts p ∧ o.verdict.Upholds p := by
  simp only [passes, Bool.and_eq_true, Bool.not_eq_true', decide_eq_false_iff_not,
    tests_ofOutcome]
  refine and_congr_right fun h => ?_
  rw [mem_failed_ofOutcome h, Decidable.not_not]

end FieldEvidence

/-! ### The summary, case by case -/

namespace FieldCoverage

/-- What cases count for a field, those of them that have to do with it. -/
def ofEvidence (evidence : List FieldEvidence) (p : Path) : FieldCoverage :=
  let concerned := evidence.filter (p ∈ ·.fields)
  { path := p
    tested := concerned.countP (·.tests p)
    mutated := concerned.countP (·.mutates p)
    hits := concerned.countP fun e => e.tests p && e.mutates p
    pass := concerned.countP (·.passes p) }

/-- Cases that have nothing to do with a field count nothing for it. -/
theorem ofEvidence_eq_blank {es : List FieldEvidence} (h : ∀ e ∈ es, p ∉ e.fields) :
    ofEvidence es p = blank p := by
  have hnone : es.filter (p ∈ ·.fields) = [] :=
    List.filter_eq_nil_iff.mpr fun e he => by simpa using h e he
  rw [ofEvidence, hnone]
  rfl

/-- One more case counts if it has to do with the field. -/
theorem ofEvidence_concat (es : List FieldEvidence) (e : FieldEvidence) (p : Path) :
    ofEvidence (es ++ [e]) p =
      if p ∈ e.fields then (ofEvidence es p).count e else ofEvidence es p := by
  have hfilter : (es ++ [e]).filter (p ∈ ·.fields) =
      es.filter (p ∈ ·.fields) ++ if p ∈ e.fields then [e] else [] := by
    rw [List.filter_append]
    by_cases hp : p ∈ e.fields <;> simp [hp]
  have hcount (test : FieldEvidence → Bool) (as : List FieldEvidence) :
      (as ++ [e]).countP test = as.countP test + (test e).toNat := by
    cases htest : test e <;> simp [htest]
  split <;> rename_i hp
  · simp only [ofEvidence, count, hfilter, if_pos hp, hcount]
  · simp only [ofEvidence, hfilter, if_neg hp, List.append_nil]

end FieldCoverage

namespace FieldSummary

open FieldCoverage (blank ofEvidence)

/-- Going through fields without repetition counts the case once in the line of each. -/
theorem find?_foldl_countAt {e : FieldEvidence} {ps : List Path} (hnodup : ps.Nodup)
    (s : FieldSummary) :
    Entries.find? p (ps.foldl (countAt e) s) =
      if p ∈ ps then some (((Entries.find? p s).getD (blank p)).count e)
      else Entries.find? p s := by
  induction ps generalizing s with
  | nil => rfl
  | cons q ps ih =>
    obtain ⟨hq, hnodup⟩ := List.nodup_cons.mp hnodup
    rw [List.foldl_cons, ih hnodup]
    by_cases hp : p = q
    · subst hp
      rw [if_neg hq, if_pos (List.mem_cons_self ..), countAt, Entries.find?_put_self]
    · rw [countAt, Entries.find?_put_of_ne hp]
      simp only [List.mem_cons, hp, false_or]

/-- **What one case does to the line of a field**: it counts there if it has to do with the
field, and otherwise the line is left. -/
theorem find?_countCase (s : FieldSummary) (e : FieldEvidence) (p : Path) :
    Entries.find? p (s.countCase e) =
      if p ∈ e.fields then some (((Entries.find? p s).getD (blank p)).count e)
      else Entries.find? p s := by
  have hnodup : e.fields.toList.Nodup := e.fields.ascending.imp StrictOrder.ne_of_lt
  simp only [countCase, find?_foldl_countAt hnodup, OrderedSet.mem_toList]

theorem ascending_countCase {s : FieldSummary} (h : Entries.Ascending s) (e : FieldEvidence) :
    Entries.Ascending (s.countCase e) :=
  List.foldlRecOn (motive := Entries.Ascending) _ _ h
    fun _ hs _ _ => Entries.ascending_put _ _ hs

/-- **The line of a field after a row of cases** has what they count for it; there is none if no
case has to do with the field. -/
theorem find?_foldl_countCase (es : List FieldEvidence) (p : Path) :
    Entries.find? p (es.foldl countCase []) =
      if ∃ e ∈ es, p ∈ e.fields then some (ofEvidence es p) else none := by
  induction es using List.reverseRecOn with
  | nil => simp [Entries.find?]
  | append_singleton es e ih =>
    -- With or without a line, so far the cases count what `ofEvidence` says.
    have hline : (Entries.find? p (es.foldl countCase [])).getD (blank p) = ofEvidence es p := by
      rw [ih]
      split
      · rfl
      · rename_i hnone
        exact (FieldCoverage.ofEvidence_eq_blank fun e he hp => hnone ⟨e, he, hp⟩).symm
    rw [List.foldl_append, List.foldl_cons, List.foldl_nil, find?_countCase, hline, ih,
      FieldCoverage.ofEvidence_concat]
    by_cases hp : p ∈ e.fields <;> simp [hp]

end FieldSummary

/-! ### The lines of a report -/

/-- What the cases and their outcomes say about fields. -/
def evidenceOf (rule : Option String) (evaluated : List (TestCase × TestOutcome)) :
    List FieldEvidence :=
  evaluated.map fun e => .ofOutcome rule e.1 e.2

/-- The fields that have a line in the report. -/
def reportedFields (rule : Option String) (evaluated : List (TestCase × TestOutcome)) :
    OrderedSet Path :=
  .ofList ((evidenceOf rule evaluated).flatMap (·.fields.toList))

theorem mem_reportedFields_iff_evidence :
    p ∈ reportedFields rule evaluated ↔ ∃ e ∈ evidenceOf rule evaluated, p ∈ e.fields := by
  simp only [reportedFields, OrderedSet.mem_ofList, List.mem_flatMap, OrderedSet.mem_toList]

theorem mem_reportedFields :
    p ∈ reportedFields rule evaluated ↔ ∃ e ∈ evaluated, e.1.Asserts p ∨ e.2.Changes rule p := by
  simp only [mem_reportedFields_iff_evidence, evidenceOf, List.mem_map, exists_exists_and_eq_and,
    FieldEvidence.mem_fields_ofOutcome]

/-- **The report, a line at a time**: every reported field has the line that all cases together
count for it. -/
theorem fieldReport_eq (rule : Option String) (evaluated : List (TestCase × TestOutcome)) :
    fieldReport rule evaluated =
      sortBy (fun f g => decide (g.hits ≤ f.hits))
        ((reportedFields rule evaluated).toList.map
          (.ofEvidence (evidenceOf rule evaluated))) := by
  have hasc : Entries.Ascending ((evidenceOf rule evaluated).foldl FieldSummary.countCase []) :=
    List.foldlRecOn (motive := Entries.Ascending) _ _ List.Pairwise.nil
      fun _ hs e _ => FieldSummary.ascending_countCase hs e
  have hlines : (evidenceOf rule evaluated).foldl FieldSummary.countCase [] =
      (reportedFields rule evaluated).toList.map fun p =>
        (p, .ofEvidence (evidenceOf rule evaluated) p) := by
    refine Entries.eq_of_find? hasc ?_ fun p => ?_
    · exact List.pairwise_map.mpr (reportedFields rule evaluated).ascending
    · rw [FieldSummary.find?_foldl_countCase, Entries.find?_map]
      simp only [OrderedSet.mem_toList, mem_reportedFields_iff_evidence]
  show sortBy _ (((evidenceOf rule evaluated).foldl FieldSummary.countCase []).map (·.2)) = _
  rw [hlines, List.map_map]
  rfl

theorem mem_fieldReport :
    f ∈ fieldReport rule evaluated ↔
      (∃ e ∈ evaluated, e.1.Asserts f.path ∨ e.2.Changes rule f.path) ∧
        f = .ofEvidence (evidenceOf rule evaluated) f.path := by
  rw [fieldReport_eq, mem_sortBy, List.mem_map]
  simp only [OrderedSet.mem_toList, mem_reportedFields]
  constructor
  · rintro ⟨p, hp, rfl⟩
    exact ⟨hp, rfl⟩
  · rintro ⟨hp, hf⟩
    exact ⟨f.path, hp, hf.symm⟩

/-- The lines with more hits come first, and those with as many in the order of their paths. -/
def FieldCoverage.Before (f g : FieldCoverage) : Prop :=
  g.hits < f.hits ∨ f.hits = g.hits ∧ f.path < g.path

theorem fieldReport_before (rule : Option String) (evaluated : List (TestCase × TestOutcome)) :
    (fieldReport rule evaluated).Pairwise FieldCoverage.Before := by
  -- The lines are sorted by hits alone, stably, and stand in the order of their paths before.
  have hpaths : ((reportedFields rule evaluated).toList.map
      (FieldCoverage.ofEvidence (evidenceOf rule evaluated))).Pairwise (·.path < ·.path) :=
    List.pairwise_map.mpr (reportedFields rule evaluated).ascending
  rw [fieldReport_eq]
  refine (sortBy_stable ?_ ?_ hpaths).imp ?_
  · intro f g h
    simp only [decide_eq_false_iff_not, decide_eq_true_eq] at h ⊢
    omega
  · intro f g k h h'
    simp only [decide_eq_true_eq] at h h' ⊢
    omega
  · rintro f g ⟨hle, hsame⟩
    simp only [decide_eq_true_eq] at hle hsame
    rcases Nat.lt_or_eq_of_le hle with hlt | heq
    · exact Or.inl hlt
    · exact Or.inr ⟨heq.symm, hsame (Nat.le_of_eq heq.symm)⟩

/-- No two lines are about the same field. -/
theorem fieldReport_nodup (rule : Option String) (evaluated : List (TestCase × TestOutcome)) :
    ((fieldReport rule evaluated).map FieldCoverage.path).Nodup := by
  have hperm : ((fieldReport rule evaluated).map FieldCoverage.path).Perm
      (reportedFields rule evaluated).toList := by
    rw [fieldReport_eq]
    refine ((sortBy_perm _ _).map _).trans ?_
    rw [List.map_map]
    exact List.Perm.of_eq (List.map_id _)
  refine hperm.nodup_iff.mpr ((reportedFields rule evaluated).ascending.imp ?_)
  intro p q h
  exact StrictOrder.ne_of_lt h

/-! ### The counters -/

section Counters

/-- A counter counts the cases that have to do with the field and pass a test. -/
theorem countP_concerned (test : FieldEvidence → Bool) :
    ((evidenceOf rule evaluated).filter (p ∈ ·.fields)).countP test =
      evaluated.countP fun e => test (.ofOutcome rule e.1 e.2) = true ∧
        (e.1.Asserts p ∨ e.2.Changes rule p) := by
  rw [List.countP_filter, evidenceOf, List.countP_map]
  refine List.countP_congr fun e _ => ?_
  simp only [Function.comp_apply, Bool.and_eq_true, FieldEvidence.mem_fields_ofOutcome,
    decide_eq_true_eq]

variable (rule evaluated p)

theorem tested_ofEvidence :
    (FieldCoverage.ofEvidence (evidenceOf rule evaluated) p).tested =
      evaluated.countP fun e => e.1.Asserts p := by
  refine (countP_concerned (·.tests p)).trans (List.countP_congr fun e _ => ?_)
  simp only [FieldEvidence.tests_ofOutcome, decide_eq_true_eq]
  exact and_iff_left_of_imp Or.inl

/-- A run that changed the field is left out if the case does not assert it and no change is at
the field's own path. -/
theorem mutated_ofEvidence :
    (FieldCoverage.ofEvidence (evidenceOf rule evaluated) p).mutated =
      evaluated.countP fun e =>
        e.2.Mutates rule p ∧ (e.1.Asserts p ∨ e.2.Changes rule p) := by
  refine (countP_concerned (·.mutates p)).trans (List.countP_congr fun e _ => ?_)
  simp only [FieldEvidence.mutates_ofOutcome, decide_eq_true_eq]

theorem hits_ofEvidence :
    (FieldCoverage.ofEvidence (evidenceOf rule evaluated) p).hits =
      evaluated.countP fun e => e.1.Asserts p ∧ e.2.Mutates rule p := by
  refine (countP_concerned fun e => e.tests p && e.mutates p).trans
    (List.countP_congr fun e _ => ?_)
  simp only [Bool.and_eq_true, FieldEvidence.tests_ofOutcome, FieldEvidence.mutates_ofOutcome,
    decide_eq_true_eq]
  exact and_iff_left_of_imp fun h => Or.inl h.1

theorem pass_ofEvidence :
    (FieldCoverage.ofEvidence (evidenceOf rule evaluated) p).pass =
      evaluated.countP fun e => e.1.Asserts p ∧ e.2.verdict.Upholds p := by
  refine (countP_concerned (·.passes p)).trans (List.countP_congr fun e _ => ?_)
  simp only [FieldEvidence.passes_ofOutcome, decide_eq_true_eq]
  exact and_iff_left_of_imp fun h => Or.inl h.1

end Counters

/-- The members with both properties are as many as those with one of them exactly if all of these
have the other one. -/
theorem countP_and_eq_iff {α : Type} {P Q : α → Prop} [DecidablePred P] [DecidablePred Q]
    (as : List α) :
    (as.countP fun a => Q a ∧ P a) = (as.countP fun a => Q a) ↔ ∀ a ∈ as, Q a → P a := by
  -- Counted among the members with the one property, the other is to hold of all of them.
  have hfilter : (as.countP fun a => Q a ∧ P a) = (as.filter fun a => Q a).countP (P ·) := by
    rw [List.countP_filter]
    refine List.countP_congr fun a _ => ?_
    simp only [Bool.and_eq_true, decide_eq_true_eq, and_comm]
  rw [hfilter, List.countP_eq_length_filter (p := fun a => decide (Q a)), List.countP_eq_length]
  simp only [List.mem_filter, decide_eq_true_eq, and_imp]

theorem mem_fieldReport_paths :
    p ∈ (fieldReport rule evaluated).map FieldCoverage.path ↔
      ∃ e ∈ evaluated, e.1.Asserts p ∨ e.2.Changes rule p := by
  simp only [List.mem_map, mem_fieldReport]
  constructor
  · rintro ⟨f, ⟨h, -⟩, rfl⟩
    exact h
  · intro h
    exact ⟨.ofEvidence (evidenceOf rule evaluated) p, ⟨h, rfl⟩, rfl⟩

/-- **The counters of a report.**  A line counts the cases that assert its field (`tested`), those
of them whose run has a change at an overlapping path (`hits`), and those of them whose outcome is
no error and reports no mismatch there (`pass`).  Of the runs that have a change at an overlapping
path (`mutated`) it counts those that assert the field or have a change at its own path; so it
counts all of them exactly if all of them do.  There is one line for every field that is asserted
or is the path of a change, and the lines come by falling hits, then by rising paths. -/
theorem field_report_counts (rule : Option String) (evaluated : List (TestCase × TestOutcome)) :
    (∀ f ∈ fieldReport rule evaluated,
      f.tested = evaluated.countP (fun e => e.1.Asserts f.path) ∧
      f.hits = evaluated.countP (fun e => e.1.Asserts f.path ∧ e.2.Mutates rule f.path) ∧
      f.pass = evaluated.countP (fun e => e.1.Asserts f.path ∧ e.2.verdict.Upholds f.path) ∧
      f.mutated = evaluated.countP (fun e =>
        e.2.Mutates rule f.path ∧ (e.1.Asserts f.path ∨ e.2.Changes rule f.path)) ∧
      (f.mutated = evaluated.countP (fun e => e.2.Mutates rule f.path) ↔
        ∀ e ∈ evaluated, e.2.Mutates rule f.path →
          e.1.Asserts f.path ∨ e.2.Changes rule f.path)) ∧
    (∀ p, p ∈ (fieldReport rule evaluated).map FieldCoverage.path ↔
      ∃ e ∈ evaluated, e.1.Asserts p ∨ e.2.Changes rule p) ∧
    ((fieldReport rule evaluated).map FieldCoverage.path).Nodup ∧
    (fieldReport rule evaluated).Pairwise FieldCoverage.Before := by
  refine ⟨fun f hf => ?_, fun p => mem_fieldReport_paths, fieldReport_nodup rule evaluated,
    fieldReport_before rule evaluated⟩
  have hline := (mem_fieldReport.mp hf).2
  have hmutated : f.mutated = evaluated.countP fun e =>
      e.2.Mutates rule f.path ∧ (e.1.Asserts f.path ∨ e.2.Changes rule f.path) :=
    (congrArg FieldCoverage.mutated hline).trans (mutated_ofEvidence rule f.path evaluated)
  refine ⟨?_, ?_, ?_, hmutated, ?_⟩
  · exact (congrArg FieldCoverage.tested hline).trans (tested_ofEvidence rule f.path evaluated)
  · exact (congrArg FieldCoverage.hits hline).trans (hits_ofEvidence rule f.path evaluated)
  · exact (congrArg FieldCoverage.pass hline).trans (pass_ofEvidence rule f.path evaluated)
  · rw [hmutated, countP_and_eq_iff]

namespace Reported

/-- The fragment `{"a": {"b": 1}}`. -/
def fragment : Document := Document.emptyMap.setScalar [.key "a", .key "b"] (.int 1)

/-- A case with this name that expects a fragment. -/
def expecting (name : String) (expected : Document) : TestCase :=
  ⟨some name, name, true, none, ∅, 0, Document.emptyMap, expected⟩

/-- The case, where the run of a single rule gives this document. -/
def ranTo (c : TestCase) (after : Document) : TestCase × TestOutcome :=
  (c, .ofRun c (.ok ⟨c.input, after, diffBy "r" c.input.value after.value, []⟩))

/-- Two cases that assert `a.b`: the run of the first one adds all of `a`, that of the second one
changes nothing. -/
def asserting : List (TestCase × TestOutcome) :=
  [ranTo (expecting "adds" fragment) fragment,
    ranTo (expecting "keeps" fragment) Document.emptyMap]

/-- A case that asserts `a.b`, whose run changes nothing, and one that asserts nothing, whose run
adds all of `a`. -/
def apart : List (TestCase × TestOutcome) :=
  [ranTo (expecting "keeps" fragment) Document.emptyMap,
    ranTo (expecting "adds" Document.emptyMap) fragment]

end Reported

open Reported in
/-- Both cases assert the field `a.b`, so the run that adds `a` is counted for it. -/
theorem field_report_counts_asserting :
    fieldReport none asserting =
      [⟨[.key "a", .key "b"], 2, 1, 1, 1⟩, ⟨[.key "a"], 0, 1, 0, 0⟩] ∧
    asserting.countP (fun e => e.2.Mutates none [.key "a", .key "b"]) = 1 := by
  have hreport : fieldReport none asserting =
      [⟨[.key "a", .key "b"], 2, 1, 1, 1⟩, ⟨[.key "a"], 0, 1, 0, 0⟩] := rfl
  obtain ⟨hcounts, -⟩ := field_report_counts none asserting
  obtain ⟨-, -, -, -, hall⟩ := hcounts _ (hreport ▸ List.mem_cons_self ..)
  exact ⟨hreport, (hall.mpr (by decide)).symm⟩

open Reported in
/-- **A run that mutates a field and is not counted for it**: the report says of `a.b` that no run
mutated it, although one of the two has a change at the overlapping path `a`. -/
theorem mutating_run_left_out :
    (⟨[.key "a", .key "b"], 1, 0, 0, 0⟩ : FieldCoverage) ∈ fieldReport none apart ∧
    apart.countP (fun e => e.2.Mutates none [.key "a", .key "b"]) = 1 := by
  have hreport : fieldReport none apart =
      [⟨[.key "a"], 0, 1, 0, 0⟩, ⟨[.key "a", .key "b"], 1, 0, 0, 0⟩] := rfl
  rw [hreport]
  exact ⟨List.mem_cons_of_mem _ (List.mem_cons_self ..), rfl⟩

/-! ### Reports on several lists of cases -/

namespace FieldCoverage

/-- What a report counts for a field; nothing if it has no line for it. -/
def counted (report : List FieldCoverage) (p : Path) : FieldCoverage :=
  (report.find? (·.path = p)).getD ⟨p, 0, 0, 0, 0⟩

/-- The counters of two reports for a field, added up. -/
def plus (f g : FieldCoverage) : FieldCoverage :=
  ⟨f.path, f.tested + g.tested, f.mutated + g.mutated, f.hits + g.hits, f.pass + g.pass⟩

theorem ofEvidence_append (es fs : List FieldEvidence) (p : Path) :
    ofEvidence (es ++ fs) p = (ofEvidence es p).plus (ofEvidence fs p) := by
  simp only [ofEvidence, plus, List.filter_append, List.countP_append]

theorem ofEvidence_perm {es fs : List FieldEvidence} (h : es.Perm fs) (p : Path) :
    ofEvidence es p = ofEvidence fs p := by
  have hconcerned : (es.filter (p ∈ ·.fields)).Perm (fs.filter (p ∈ ·.fields)) := h.filter _
  simp only [ofEvidence, hconcerned.countP_eq]

/-- **What a report counts for a field**, whether it has a line for it or not. -/
theorem counted_fieldReport (rule : Option String) (evaluated : List (TestCase × TestOutcome))
    (p : Path) :
    counted (fieldReport rule evaluated) p = ofEvidence (evidenceOf rule evaluated) p := by
  rw [counted]
  cases hfind : (fieldReport rule evaluated).find? (·.path = p) with
  | some f =>
    have hpath : f.path = p := by simpa using List.find?_some hfind
    rw [Option.getD_some, (mem_fieldReport.mp (List.mem_of_find?_eq_some hfind)).2, hpath]
  | none =>
    refine (ofEvidence_eq_blank fun e he hp => ?_).symm
    obtain ⟨x, hx, rfl⟩ := List.mem_map.mp he
    have hlisted : p ∈ (fieldReport rule evaluated).map FieldCoverage.path :=
      mem_fieldReport_paths.mpr ⟨x, hx, FieldEvidence.mem_fields_ofOutcome.mp hp⟩
    obtain ⟨f, hf, hpath⟩ := List.mem_map.mp hlisted
    exact List.find?_eq_none.mp hfind f hf (by simpa using hpath)

end FieldCoverage

theorem evidenceOf_append :
    evidenceOf rule (xs ++ ys) = evidenceOf rule xs ++ evidenceOf rule ys :=
  List.map_append

/-- The order of the cases does not matter. -/
theorem fieldReport_perm (h : xs.Perm ys) : fieldReport rule xs = fieldReport rule ys := by
  have hevidence : (evidenceOf rule xs).Perm (evidenceOf rule ys) := h.map _
  have hfields : reportedFields rule xs = reportedFields rule ys := by
    refine OrderedSet.ext fun p => ?_
    simp only [mem_reportedFields, h.mem_iff]
  rw [fieldReport_eq, fieldReport_eq, hfields, funext (FieldCoverage.ofEvidence_perm hevidence)]

/-- **Reports add up.**  The report on two lists of cases has a line for the fields for which one
of the two reports has one, and counts for every field what they count together; the order of the
cases does not matter.  A line has no more hits than cases that assert its field, or than runs that
mutate it, and no more passes than cases that assert it. -/
theorem field_report_adds_up (rule : Option String) (xs ys : List (TestCase × TestOutcome)) :
    (∀ p, p ∈ (fieldReport rule (xs ++ ys)).map FieldCoverage.path ↔
      p ∈ (fieldReport rule xs).map FieldCoverage.path ∨
        p ∈ (fieldReport rule ys).map FieldCoverage.path) ∧
    (∀ p, FieldCoverage.counted (fieldReport rule (xs ++ ys)) p =
      (FieldCoverage.counted (fieldReport rule xs) p).plus
        (FieldCoverage.counted (fieldReport rule ys) p)) ∧
    (∀ zs, xs.Perm zs → fieldReport rule zs = fieldReport rule xs) ∧
    ∀ f ∈ fieldReport rule xs, f.hits ≤ f.tested ∧ f.hits ≤ f.mutated ∧ f.pass ≤ f.tested := by
  refine ⟨fun p => ?_, fun p => ?_, fun zs h => (fieldReport_perm h).symm, fun f hf => ?_⟩
  · simp only [mem_fieldReport_paths, List.mem_append, or_and_right, exists_or]
  · simp only [FieldCoverage.counted_fieldReport, evidenceOf_append,
      FieldCoverage.ofEvidence_append]
  · rw [(mem_fieldReport.mp hf).2, tested_ofEvidence, mutated_ofEvidence, hits_ofEvidence,
      pass_ofEvidence]
    refine ⟨List.countP_mono_left fun e _ h => ?_, List.countP_mono_left fun e _ h => ?_,
      List.countP_mono_left fun e _ h => ?_⟩
    · rw [decide_eq_true_eq] at h ⊢
      exact h.1
    · rw [decide_eq_true_eq] at h ⊢
      exact ⟨h.2, Or.inl h.1⟩
    · rw [decide_eq_true_eq] at h ⊢
      exact h.1

open Reported in
/-- The four cases together, and the first two of them in the other order. -/
theorem field_report_adds_up_reversed :
    FieldCoverage.counted (fieldReport none (asserting ++ apart)) [.key "a", .key "b"] =
      ⟨[.key "a", .key "b"], 3, 1, 1, 1⟩ ∧
    fieldReport none asserting.reverse = fieldReport none asserting ∧
    ∃ f ∈ fieldReport none asserting, f.hits = 1 ∧ f.hits ≤ f.mutated := by
  obtain ⟨-, hsum, horder, hbounds⟩ := field_report_adds_up none asserting apart
  refine ⟨hsum _, horder _ (List.reverse_perm _).symm, ?_⟩
  refine ⟨⟨[.key "a", .key "b"], 2, 1, 1, 1⟩, List.mem_cons_self .., rfl, ?_⟩
  exact (hbounds _ (List.mem_cons_self ..)).2.1

end DocumentRules
