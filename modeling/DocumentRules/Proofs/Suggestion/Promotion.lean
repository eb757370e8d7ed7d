/-
Promoted suggestions.

A suggestion expects what its run left at the newly covered paths.  The fragment is put together
from the output itself, so it is a part of the output, and the test case that the suggestion is
promoted to passes, up to one kind of output: a map with the single key `$match` is read back as
a matcher.

* **`partOf_observedFragment`** — what is observed is a part of the output;
* **`promoted_passes_iff`** — a promoted suggestion passes exactly if the matchers that are read
  out of the observed output accept it, and so whenever there are none;
* **`promoted_fails_on_match_key`** — a suggestion that does not pass when it is promoted.
-/
import DocumentRules.Proofs.Catalog.Evaluation
import DocumentRules.Proofs.Catalog.Fragment
import DocumentRules.Proofs.Suggestion.Ranking
import Mathlib.Data.List.TakeWhile

namespace DocumentRules

open Value (PartOf)

theorem isKey_of_mem_outsideLists {p : Path} : ∀ s ∈ outsideLists p, ∃ k, s = .key k := by
  intro s hs
  have hkey := List.mem_takeWhile_imp hs
  cases s with
  | key k => exact ⟨k, rfl⟩
  | index i => cases hkey

/-- **What is observed is a part of the output**, or empty. -/
theorem partOf_observedFragment (after : Document) (paths : List Path) :
    (observedFragment after paths).value = .map [] ∨
      (observedFragment after paths).value.PartOf (some after.value) := by
  let IsPart (d : Document) : Prop := d.value = .map [] ∨ d.value.PartOf (some after.value)
  show IsPart (paths.foldl _ .emptyMap)
  refine List.foldlRecOn paths _ (Or.inl rfl) fun fragment hfragment p _ => ?_
  split
  · rename_i v hv
    have hvalue : after.value.get? (outsideLists p) = some v.value := by
      rw [← Document.map_value_get?, hv, Option.map_some]
    refine Or.inr (PartOf.set ?_ isKey_of_mem_outsideLists hvalue)
    refine hfragment.symm.imp_right fun hempty k => ?_
    rw [hempty]
    rfl
  · exact hfragment

/-- **When a promoted suggestion passes.**  The run on its input completes.  If there is no `nan`
in the output, the test case passes exactly if every matcher that its expected fragment is read
as accepts what stands in its place; it passes, then, if the output has nowhere a key by which
matchers are recognized. -/
theorem promoted_passes_iff (e : SuggestionEngine Id) (s : Snapshot Id) (coverage : Coverage)
    (known : OrderedSet String) (limit : Nat) (options : RunOptions) (suite : Option String)
    (tags : Option (List String)) :
    ∀ x ∈ (e.suggest s coverage known limit).run,
      ∃ result, (run options s x.input).run = .ok result ∧ (result.after.NanFree →
        ((evaluate options s (x.promote suite tags)).run.passed = true ↔
          ∀ p m, x.expected.value.Asks p m → m.check (result.after.value.get? p) = .ok ()) ∧
        ((∀ p, result.after.value.get? (p ++ [.key Matcher.matchKey]) = none) →
          (evaluate options s (x.promote suite tags)).run.passed = true)) := by
  intro x hx
  obtain ⟨c, r, p, -, hr, -, -, rfl⟩ := SuggestionEngine.of_mem_suggest hx
  obtain ⟨logs, hrun⟩ := run_with_options hr options
  refine ⟨_, hrun, fun hnan => ?_⟩
  have hpart := partOf_observedFragment r.after ((coverage.newFacts r).toList.map (·.path))
  have hpassed (t : TestCase) (ht : t.input = c.input) :
      (evaluate options s t).run.passed = true ↔
        compare t.expected.value r.after.value = [] := by
    rw [evaluate_run, ht, hrun, passed_ofRun_iff]
  have hasks := Value.compare_eq_nil_iff hpart (Document.wellFormed _) hnan
  rw [hpassed _ rfl]
  refine ⟨hasks, fun hno => hasks.mpr fun q m hask => ?_⟩
  -- A matcher in the fragment would have its key in the output.
  rcases hpart with hempty | hpart
  · rw [hempty] at hask
    exact absurd hask (Value.not_asks_empty q m)
  · obtain ⟨u, hu⟩ := hask.exists_matchKey hpart
    rw [Option.bind_some, hno q] at hu
    cases hu

/-! ### A rule that writes a map with the key of matchers -/

namespace Matching

/-- A map that is read as a matcher with these rules. -/
def output (rules : Document) : Document := Document.emptyMap.set [.key Matcher.matchKey] rules

/-- A rule that reads nothing and sets the field `out` to such a map. -/
def writing (rules : Document) : Rule Id where
  id := "r"
  name := "r"
  version := defaultVersion
  builtIn := false
  enabled := true
  body := .native "r" fun d => .ok (d.set [.key "out"] (output rules))
  reads := ∅
  writes := .ofList [[.key "out"]]
  description := none
  updatedAt := none
  codeHash := ""

def registry (rules : Document) : Registry Id :=
  (Registry.empty.edit.performAll [.add (writing rules)]).build

def snapshot (rules : Document) : Snapshot Id := ⟨registry rules, ⟨["r"], ⟨[[]]⟩, [0]⟩⟩

theorem ofRegistry_eq (rules : Document) :
    Snapshot.ofRegistry (registry rules) = .ok (snapshot rules) :=
  Snapshot.ofRegistry_of_findCycle ⟨[[]]⟩ rfl (by cbv) (by decide +kernel)

/-- The first suggestion for the rule. -/
def suggested (rules : Document) : List Suggestion :=
  ((SuggestionEngine.ofConfig {}).suggest (snapshot rules) ∅ ∅ 1).run

/-- A matcher that any field meets that is there. -/
def present : Document := Document.emptyMap.setScalar [.key "exists"] (.bool true)

end Matching

open Matching

/-- The output is read as a matcher, which accepts it. -/
theorem promoted_passes_iff_present :
    ∃ x ∈ suggested present, ∃ result,
      (run {} (snapshot present) x.input).run = .ok result ∧
      (evaluate {} (snapshot present) (x.promote none none)).run.passed = true ∧
      ∃ m, x.expected.value.Asks [.key "out"] m ∧
        m.check (result.after.value.get? [.key "out"]) = .ok () := by
  obtain ⟨x, hx⟩ : ∃ x, suggested present = [x] := ⟨_, rfl⟩
  have hmem : x ∈ suggested present := hx ▸ List.mem_singleton_self x
  obtain ⟨result, hrun, hpasses⟩ := promoted_passes_iff (.ofConfig {}) (snapshot present) ∅ ∅ 1 {}
    none none x hmem
  obtain rfl := List.singleton_inj.mp hx
  obtain rfl := Except.ok.inj hrun
  have hpassed := (hpasses (by decide)).1
  have hasks (f : Value) : (Value.map [("out", .map [(Matcher.matchKey, f)])]).Asks
      [.key "out"] ⟨f.entries?.getD []⟩ := .entry rfl rfl (.here rfl)
  exact ⟨_, hmem, _, hrun, rfl, _, hasks present.value, hpassed.mp rfl _ _ (hasks present.value)⟩

/-- **A promoted suggestion that does not pass**: the output is a map with the single key
`$match`, which holds no rules.  Read as a matcher it accepts nothing, not even itself. -/
theorem promoted_fails_on_match_key :
    (registry (.int 1)).Reachable ∧
      Snapshot.ofRegistry (registry (.int 1)) = .ok (snapshot (.int 1)) ∧
      ∃ x ∈ suggested (.int 1), ∃ result,
        (run {} (snapshot (.int 1)) x.input).run = .ok result ∧
          result.before.NanFree ∧ result.after.NanFree ∧
          (evaluate {} (snapshot (.int 1)) (x.promote none none)).run.passed = false :=
  ⟨.revise .empty _, ofRegistry_eq (.int 1), _, List.mem_singleton.mpr rfl, _, rfl, by decide,
    by decide, rfl⟩

end DocumentRules
