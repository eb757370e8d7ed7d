/-
What suggestions rest on.

An input is proposed for declared writes that are not covered, and it is suggested if its run
touches a leaf at or below one of them.  Touching is said of changes, and covering of facts; the
two agree, so the suggestion brings the evidence for its target.

* **`reaches_iff_exercises`** — a run reaches a target exactly if what it covers exercises it;
* **`mem_proposals`** — inputs are proposed for the uncovered declared writes of the rules;
* **`suggestions_close_gaps`** — a suggestion is for a declared write that is not covered, it
  says what its run covers anew, and promoting it closes the gap.
-/
import DocumentRules.Proofs.Coverage.Gaps
import DocumentRules.Proofs.Suggestion.Promotion

namespace DocumentRules

/-! ### Reaching a target -/

/-- **A run reaches a target exactly if it exercises it.** -/
theorem reaches_iff_exercises {r : RunResult} {p : Proposal} :
    r.reaches p = true ↔
      Coverage.exercises (.ofMutations r.mutations) p.rule p.target = true := by
  simp only [Coverage.exercises_iff, RunResult.reaches, Coverage.mem_ofMutations,
    List.any_eq_true, Bool.and_eq_true, beq_iff_eq, Mutation.touches_iff, Mutation.mem_facts]
  constructor
  · rintro ⟨b, hb, hrule, q, hq, hcovers⟩
    exact ⟨⟨p.rule, q⟩, ⟨b, hb, hrule, hq⟩, rfl, hcovers⟩
  · rintro ⟨f, ⟨b, hb, hrule, hq⟩, hf, hcovers⟩
    exact ⟨b, hb, hf ▸ hrule, f.path, hq, hcovers⟩

/-- What a run exercises that was not exercised, it exercises by something new. -/
theorem exercises_newFacts {coverage : Coverage} {r : RunResult} {rule : String} {p : Path}
    (hnew : coverage.exercises rule p = false)
    (h : Coverage.exercises (.ofMutations r.mutations) rule p = true) :
    Coverage.exercises (coverage.newFacts r) rule p = true := by
  obtain ⟨f, hf, hrule, hcovers⟩ := Coverage.exercises_iff.mp h
  refine Coverage.exercises_iff.mpr ⟨f, Coverage.mem_newFacts.mpr ⟨hf, fun hold => ?_⟩, hrule,
    hcovers⟩
  rw [Coverage.exercises_iff.mpr ⟨f, hold, hrule, hcovers⟩] at hnew
  cases hnew

/-- What a run covers adds to a coverage what is new in it. -/
theorem union_ofMutations (coverage : Coverage) (r : RunResult) :
    coverage.union (Coverage.ofMutations r.mutations) = coverage.union (coverage.newFacts r) := by
  refine OrderedSet.ext fun f => ?_
  rw [OrderedSet.mem_union, OrderedSet.mem_union, Coverage.mem_newFacts]
  tauto

/-! ### What is proposed -/

namespace SuggestionEngine

variable {m : Type → Type} {e : SuggestionEngine m} {rules : List (Rule m)} {coverage : Coverage}

/-- **Inputs are proposed for the uncovered declared writes of the rules.** -/
theorem mem_proposals {input : Document} {p : Proposal} :
    (input, p) ∈ e.proposals rules coverage ↔
      ∃ r ∈ rules, ∃ w ∈ coverage.uncoveredWrites r, ∃ st ∈ e.strategies,
        ∃ c ∈ st.candidates e.config r w, c.input = input ∧ ⟨r.id, w, c.reason, st.tag⟩ = p := by
  simp only [proposals, List.mem_flatMap, List.mem_map, Prod.mk.injEq]

theorem exists_rule_of_mem_proposals {input : Document} {p : Proposal}
    (h : (input, p) ∈ e.proposals rules coverage) :
    ∃ r ∈ rules, r.id = p.rule ∧ p.target ∈ coverage.uncoveredWrites r := by
  obtain ⟨r, hr, w, hw, st, -, c, -, -, rfl⟩ := mem_proposals.mp h
  exact ⟨r, hr, rfl, hw⟩

end SuggestionEngine

/-! ### What a suggestion closes -/

/-- **Suggestions are evidence, and they close gaps.**  A suggestion is for a declared write of
an enabled rule that the catalog does not cover.  Its new facts are those of the run on its
input that the catalog does not cover, in ascending order, and one of them is a fact of the rule
at or below the target.  Promoted and added as a fresh case, it adds just these facts to what the
catalog covers; its target is covered then, and fewer declared writes are not. -/
theorem suggestions_close_gaps {g : Registry Id} {s : Snapshot Id} (hg : g.Reachable)
    (hs : Snapshot.ofRegistry g = .ok s) (e : SuggestionEngine Id) (options : RunOptions)
    (catalog : Catalog) (known : OrderedSet String) (limit : Nat) :
    let covered := (catalog.coverage options s).run
    ∀ x ∈ (e.suggest s covered known limit).run,
      ∃ r ∈ g.enabledRules, g.get? x.rule = some r ∧ x.target ∈ r.writes ∧
        covered.exercises x.rule x.target = false ∧
        (∃ result, (run e.options s x.input).run = .ok result ∧
          x.coverageDelta.toList.Pairwise (· < ·) ∧
          ∀ f, f ∈ x.coverageDelta ↔ f ∈ Coverage.ofMutations result.mutations ∧ f ∉ covered) ∧
        (∃ f ∈ x.coverageDelta, f.rule = x.rule ∧ x.target <+: f.path) ∧
        ∀ suite tags id, catalog.Fresh { x.promote suite tags with id := id } →
          let extended := (Catalog.coverage options s
            (catalog.upsert { x.promote suite tags with id := id })).run
          extended = covered.union x.coverageDelta ∧
            x.target ∉ extended.uncoveredWrites r ∧
            extended.gaps g.enabledRules < covered.gaps g.enabledRules := by
  intro covered x hx
  obtain ⟨c, result, p, hgroup, hrun, hfind, -, rfl⟩ := SuggestionEngine.of_mem_suggest hx
  -- The target is one of the proposals for the input, so it is an uncovered declared write.
  obtain ⟨-, -, hproposals⟩ := group?_eq_some hgroup
  obtain ⟨input, hp, -⟩ := (hproposals p).mp (List.mem_of_find?_eq_some hfind)
  obtain ⟨r, hr, hid, htarget⟩ := SuggestionEngine.exists_rule_of_mem_proposals hp
  have henabled : r ∈ g.enabledRules := (Registry.mem_orderedRules_iff hg.compatible hs).mp hr
  obtain ⟨hwrites, hgap⟩ := Coverage.mem_uncoveredWrites.mp htarget
  rw [hid] at hgap
  have hexercises : (covered.newFacts result).exercises p.rule p.target = true :=
    exercises_newFacts hgap (reaches_iff_exercises.mp (List.find?_some hfind))
  refine ⟨r, henabled, ?_, hwrites, hgap, ⟨result, hrun, OrderedSet.ascending _, ?_⟩, ?_, ?_⟩
  · show g.get? p.rule = some r
    rw [← hid]
    exact Registry.get?_of_mem hg.compatible (Registry.mem_enabledRules.mp henabled).1
  · exact fun f => Coverage.mem_newFacts
  · exact Coverage.exercises_iff.mp hexercises
  · -- The test case is evaluated with other options, which change nothing but the logs.
    intro suite tags id hfresh extended
    obtain ⟨logs, hrun'⟩ := run_with_options hrun options
    have hextended : extended = covered.union (covered.newFacts result) := by
      rw [← union_ofMutations]
      exact Catalog.Fresh.coverage_upsert (r := { result with logs := logs }) hfresh rfl hrun'
    have hexercised : (covered.newFacts result).exercises r.id p.target = true := hid ▸ hexercises
    rw [hextended]
    exact ⟨rfl, Coverage.not_mem_uncoveredWrites_union hexercised,
      Coverage.gaps_union_lt henabled htarget hexercised⟩

open Matching in
/-- The one declared write is not covered by a catalog without cases, and no write is left
uncovered once the suggestion for it is a case. -/
theorem suggestions_close_gaps_matching :
    (registry present).Reachable ∧
      Snapshot.ofRegistry (registry present) = .ok (snapshot present) ∧
      ∃ x ∈ suggested present, x.target = [.key "out"] ∧
        Coverage.gaps (Catalog.coverage {} (snapshot present)
          (Catalog.empty.upsert (x.promote none none))).run (registry present).enabledRules = 0 := by
  have hreachable : (registry present).Reachable := .revise .empty _
  obtain ⟨x, hx⟩ : ∃ x, suggested present = [x] := ⟨_, rfl⟩
  have hmem : x ∈ suggested present := hx ▸ List.mem_singleton_self x
  obtain ⟨_, -, -, -, -, -, -, hcloses⟩ := suggestions_close_gaps hreachable
    (ofRegistry_eq present) (.ofConfig {}) {} .empty ∅ 1 x hmem
  obtain ⟨-, -, hfewer⟩ := hcloses none none none fun _ hid => nomatch hid
  obtain rfl := List.singleton_inj.mp hx
  exact ⟨hreachable, ofRegistry_eq present, _, hmem, rfl, Nat.lt_one_iff.mp hfewer⟩

end DocumentRules
