/-
Paths that part.

A path comes directly before the paths that it covers.  Two paths of which neither covers the
other part at some step, and then everything at or below the one comes before everything at or
below the other; this is `Path.Precedes`, which is more than `<`.

* **`Path.Precedes.lt`**, **`Path.Precedes.append`** — it is an order of subtrees;
* **`Path.Precedes.not_overlaps`** — paths that part do not overlap;
* **`Path.Precedes.pairwise_flatMap`** — blocks that stand below ascending steps are in order if
  each of them is.
-/
import DocumentRules.Document.Path

namespace DocumentRules.Path

/-- The two paths part at some step, where the first one takes the smaller step. -/
inductive Precedes : Path → Path → Prop where
  | head {s t : Step} (h : s < t) (p q : Path) : Precedes (s :: p) (t :: q)
  | tail (s : Step) {p q : Path} (h : Precedes p q) : Precedes (s :: p) (s :: q)

namespace Precedes

variable {p q : Path}

theorem lt (h : Precedes p q) : p < q := by
  induction h with
  | head h _ _ => exact List.cons_lt_cons_iff.mpr (Or.inl h)
  | tail s _ ih => exact List.cons_lt_cons_iff.mpr (Or.inr ⟨rfl, ih⟩)

/-- What lies below the first path precedes what lies below the second. -/
theorem append (h : Precedes p q) (a b : Path) : Precedes (p ++ a) (q ++ b) := by
  induction h with
  | head h p q => exact .head h (p ++ a) (q ++ b)
  | tail s _ ih => exact .tail s ih

/-- What is above both paths does not matter. -/
theorem append_left (h : Precedes p q) (r : Path) : Precedes (r ++ p) (r ++ q) := by
  induction r with
  | nil => exact h
  | cons s r ih => exact .tail s ih

theorem not_prefix (h : Precedes p q) : ¬ p <+: q ∧ ¬ q <+: p := by
  induction h with
  | head hst p q =>
    have hne := StrictOrder.ne_of_lt hst
    simp [List.cons_prefix_cons, hne, hne.symm]
  | tail s _ ih => simpa [List.cons_prefix_cons] using ih

theorem not_overlaps (h : Precedes p q) : ¬ overlaps p q = true := by
  rw [overlaps_iff, not_or]
  exact h.not_prefix

/-- **Blocks in the order of their steps** are in order if each of them is. -/
theorem pairwise_flatMap {α β : Type} (step : α → Step) (path : β → Path) {as : List α}
    {block : α → List β} (hsteps : as.Pairwise fun a b => step a < step b)
    (hbelow : ∀ a ∈ as, ∀ b ∈ block a, ∃ p, path b = step a :: p)
    (hblock : ∀ a ∈ as, (block a).Pairwise fun b c => (path b).Precedes (path c)) :
    (as.flatMap block).Pairwise fun b c => (path b).Precedes (path c) := by
  refine List.pairwise_flatMap.mpr ⟨hblock, hsteps.imp_of_mem ?_⟩
  intro a a' ha ha' hlt b hb c hc
  obtain ⟨p, hp⟩ := hbelow a ha b hb
  obtain ⟨q, hq⟩ := hbelow a' ha' c hc
  rw [hp, hq]
  exact .head hlt p q

end Precedes

end DocumentRules.Path
