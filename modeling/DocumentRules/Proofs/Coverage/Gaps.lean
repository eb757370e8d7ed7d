/-
What is still to be covered.

* `Coverage.gaps` — how many declared writes of some rules are not covered;
* **`Coverage.uncoveredWrites_union`** — more coverage leaves of the uncovered writes those that
  it does not exercise either;
* **`Coverage.gaps_union_lt`** — if it exercises one of them, fewer are left.
-/
import DocumentRules.Coverage.Fact
import Mathlib.Algebra.Order.BigOperators.Group.List
import Mathlib.Algebra.Order.Ring.Nat

namespace DocumentRules

namespace Coverage

variable {m : Type → Type} {c d : Coverage}

theorem exercises_iff {rule : String} {p : Path} :
    c.exercises rule p = true ↔ ∃ f ∈ c, f.rule = rule ∧ p <+: f.path := by
  simp [exercises, forRule, Path.covers_iff, OrderedSet.mem_toList]

theorem exercises_union (c d : Coverage) (rule : String) (p : Path) :
    exercises (c.union d) rule p = (c.exercises rule p || d.exercises rule p) := by
  rw [Bool.eq_iff_iff, Bool.or_eq_true]
  simp only [exercises_iff, OrderedSet.mem_union, or_and_right, exists_or]

theorem mem_uncoveredWrites {r : Rule m} {w : Path} :
    w ∈ c.uncoveredWrites r ↔ w ∈ r.writes ∧ c.exercises r.id w = false := by
  simp [uncoveredWrites, OrderedSet.mem_toList]

/-- **More coverage** leaves of the uncovered writes those that it does not exercise either. -/
theorem uncoveredWrites_union (c d : Coverage) (r : Rule m) :
    uncoveredWrites (c.union d) r =
      (c.uncoveredWrites r).filter fun w => !d.exercises r.id w := by
  rw [uncoveredWrites, uncoveredWrites, List.filter_filter]
  refine List.filter_congr fun w _ => ?_
  rw [exercises_union, Bool.not_or, Bool.and_comm]

theorem not_mem_uncoveredWrites_union {r : Rule m} {w : Path} (hd : d.exercises r.id w = true) :
    w ∉ uncoveredWrites (c.union d) r := by
  rw [uncoveredWrites_union, List.mem_filter, hd]
  exact fun h => Bool.false_ne_true h.2

/-- The number of declared writes of these rules that are not covered. -/
def gaps (c : Coverage) (rules : List (Rule m)) : Nat :=
  (rules.map fun r => (c.uncoveredWrites r).length).sum

/-- **Exercising an uncovered write leaves fewer of them.** -/
theorem gaps_union_lt {rules : List (Rule m)} {r : Rule m} (hr : r ∈ rules) {w : Path}
    (hw : w ∈ c.uncoveredWrites r) (hd : d.exercises r.id w = true) :
    gaps (c.union d) rules < c.gaps rules := by
  refine List.sum_lt_sum _ _ (fun q _ => ?_) ⟨r, hr, ?_⟩
  · rw [uncoveredWrites_union]
    exact List.length_filter_le ..
  · rw [uncoveredWrites_union]
    exact List.length_filter_lt_length_iff_exists.mpr ⟨w, hw, by simpa using hd⟩

end Coverage

end DocumentRules
