/-
Stable sorting.

`sortBy before` is insertion sort: it inserts the members one after another,
from the last to the first, each in front of the members it may stand before.

* **`sortBy_perm`** — sorting permutes;
* **`sortBy_stable`**, **`sortBy_pairwise`** — the result is in order, if the relation is total
  and transitive, and members that may stand on either side of each other keep their order;
* **`sortBy_eq_of_perm`** — where only one order of the members is possible, it is the result;
* **`filter_sortBy`** — members that are left out do not change the order of the others.

Members that may stand on either side of each other keep their first order,
because an earlier member is inserted later and stops in front of its equals.
-/
namespace DocumentRules

variable {α : Type}

/-- Insert `a` in front of the first member that it may stand before. -/
def insertBy (before : α → α → Bool) (a : α) : List α → List α
  | [] => [a]
  | b :: bs => if before a b then a :: b :: bs else b :: insertBy before a bs

/-- Sort by `before a b`, read "`a` may stand in front of `b`". -/
def sortBy (before : α → α → Bool) : List α → List α
  | [] => []
  | a :: as => insertBy before a (sortBy before as)

theorem insertBy_perm (before : α → α → Bool) (a : α) (bs : List α) :
    (insertBy before a bs).Perm (a :: bs) := by
  induction bs with
  | nil => exact List.Perm.refl _
  | cons b bs ih =>
    unfold insertBy
    split
    · exact List.Perm.refl _
    · exact (ih.cons b).trans (List.Perm.swap a b bs)

theorem sortBy_perm (before : α → α → Bool) (as : List α) : (sortBy before as).Perm as := by
  induction as with
  | nil => exact List.Perm.refl _
  | cons a as ih => exact (insertBy_perm before a _).trans (ih.cons a)

@[simp] theorem mem_sortBy (before : α → α → Bool) {a : α} {as : List α} :
    a ∈ sortBy before as ↔ a ∈ as :=
  (sortBy_perm before as).mem_iff

/-! ### The order of the result -/

theorem insertBy_stable {before : α → α → Bool} {first : α → α → Prop}
    (total : ∀ a b, before a b = false → before b a = true)
    (trans : ∀ a b c, before a b = true → before b c = true → before a c = true)
    {a : α} {bs : List α} (ha : ∀ b ∈ bs, first a b)
    (h : bs.Pairwise fun b c => before b c = true ∧ (before c b = true → first b c)) :
    (insertBy before a bs).Pairwise
      fun b c => before b c = true ∧ (before c b = true → first b c) := by
  induction bs with
  | nil => simp [insertBy]
  | cons b bs ih =>
    rw [List.pairwise_cons] at h
    unfold insertBy
    split
    · rename_i hab
      refine List.pairwise_cons.mpr ⟨fun c hc => ⟨?_, fun _ => ha c hc⟩, List.pairwise_cons.mpr h⟩
      rcases List.mem_cons.mp hc with rfl | hc
      · exact hab
      · exact trans a b c hab (h.1 c hc).1
    · rename_i hab
      refine List.pairwise_cons.mpr
        ⟨fun c hc => ?_, ih (fun c hc => ha c (List.mem_cons_of_mem b hc)) h.2⟩
      rcases List.mem_cons.mp ((insertBy_perm before a bs).mem_iff.mp hc) with rfl | hc
      · exact ⟨total c b (by simpa using hab), fun hcb => absurd hcb hab⟩
      · exact h.1 c hc

/-- **Members that may stand on either side of each other keep their order.** -/
theorem sortBy_stable {before : α → α → Bool} {first : α → α → Prop}
    (total : ∀ a b, before a b = false → before b a = true)
    (trans : ∀ a b c, before a b = true → before b c = true → before a c = true)
    {as : List α} (h : as.Pairwise first) :
    (sortBy before as).Pairwise
      fun a b => before a b = true ∧ (before b a = true → first a b) := by
  induction as with
  | nil => exact List.Pairwise.nil
  | cons a as ih =>
    rw [List.pairwise_cons] at h
    exact insertBy_stable total trans (fun b hb => h.1 b ((mem_sortBy before).mp hb)) (ih h.2)

theorem sortBy_pairwise {before : α → α → Bool}
    (total : ∀ a b, before a b = false → before b a = true)
    (trans : ∀ a b c, before a b = true → before b c = true → before a c = true)
    (as : List α) : (sortBy before as).Pairwise (before · · = true) := by
  have hany : as.Pairwise fun _ _ => True := List.pairwise_of_forall fun _ _ => trivial
  exact (sortBy_stable total trans hany).imp And.left

/-- A list in which no member may change places with a later one is what sorting makes of its
members. -/
theorem sortBy_eq_of_perm {before : α → α → Bool}
    (total : ∀ a b, before a b = false → before b a = true)
    (trans : ∀ a b c, before a b = true → before b c = true → before a c = true)
    {as bs : List α} (hperm : as.Perm bs) (hbs : bs.Pairwise fun a b => before b a = false) :
    sortBy before as = bs := by
  have hordered : bs.Pairwise (before · · = true) := hbs.imp fun h => total _ _ h
  -- Two members that may stand on either side of each other are the same one.
  have hsame : bs.Pairwise fun a b => before a b = true → before b a = true → a = b := by
    refine hbs.imp ?_
    intro a b hba _ h
    rw [h] at hba
    cases hba
  have hflip : bs.Pairwise fun a b => before b a = true → before a b = true → b = a :=
    hsame.imp fun h hba hab => (h hab hba).symm
  refine List.Perm.eq_of_pairwise ?_ (sortBy_pairwise total trans as) hordered
    ((sortBy_perm before as).trans hperm)
  intro a b ha hb hab hba
  have ha' : a ∈ bs := hperm.mem_iff.mp ((mem_sortBy before).mp ha)
  exact List.Pairwise.forall_of_forall_of_flip (fun _ _ _ _ => rfl) hsame hflip ha' hb hab hba

/-! ### Leaving members out -/

/-- A member that may stand before all others comes first. -/
theorem insertBy_of_forall {before : α → α → Bool} {a : α} {bs : List α}
    (h : ∀ b ∈ bs, before a b = true) : insertBy before a bs = a :: bs := by
  cases bs with
  | nil => rfl
  | cons b bs => rw [insertBy, if_pos (h b (List.mem_cons_self ..))]

theorem filter_insertBy {before : α → α → Bool}
    (trans : ∀ a b c, before a b = true → before b c = true → before a c = true)
    (p : α → Bool) (a : α) {bs : List α} (h : bs.Pairwise (before · · = true)) :
    (insertBy before a bs).filter p =
      if p a then insertBy before a (bs.filter p) else bs.filter p := by
  induction bs with
  | nil => cases hp : p a <;> simp [insertBy, hp]
  | cons b bs ih =>
    rw [List.pairwise_cons] at h
    by_cases hab : before a b = true
    · -- The member stands before all of them, and so before those that are left.
      have hall : ∀ c ∈ (b :: bs).filter p, before a c = true := by
        intro c hc
        rcases List.mem_cons.mp (List.mem_filter.mp hc).1 with rfl | hc
        · exact hab
        · exact trans a b c hab (h.1 c hc)
      rw [insertBy, if_pos hab, List.filter_cons, insertBy_of_forall hall]
    · rw [insertBy, if_neg hab, List.filter_cons, List.filter_cons, ih h.2]
      by_cases hb : p b = true
      · rw [if_pos hb, if_pos hb, insertBy, if_neg hab]
        split <;> rfl
      · rw [if_neg hb, if_neg hb]

/-- **Members that are left out do not change the order of the others.** -/
theorem filter_sortBy {before : α → α → Bool}
    (total : ∀ a b, before a b = false → before b a = true)
    (trans : ∀ a b c, before a b = true → before b c = true → before a c = true)
    (p : α → Bool) (as : List α) :
    (sortBy before as).filter p = sortBy before (as.filter p) := by
  induction as with
  | nil => rfl
  | cons a as ih =>
    rw [sortBy, filter_insertBy trans p a (sortBy_pairwise total trans as), ih, List.filter_cons]
    split <;> rfl

end DocumentRules
