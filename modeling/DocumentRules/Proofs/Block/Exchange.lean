/-
Rows of assignments that can be exchanged.

An assignment may reach beyond its path: it can replace a value on the way, and pad a list.  A
row that changes leaves only below the paths of its own is *confined*, and what it leaves
elsewhere is not just equal but the same:

* **`Document.Confined.get?_eq`** — where it does not reach, the same value stands;
* **`Document.Confined.leaf_before`**, **`Document.Confined.leaf_after`** — outside its paths it
  brings no leaf and takes none, as long as nothing has been assigned below that leaf;
* **`Document.Exchangeable.comm`** — two rows at paths that do not overlap, each confined
  wherever it is carried out, lead to one document in either order.

The rows may create the same containers on the way, the first one that is carried out more of
them; what decides is that a document is determined by its leaves.
-/
import DocumentRules.Proofs.Block.Dependence

namespace DocumentRules

open Block (Assignment)
open Value (ChangedLeaf LeafAt)

namespace Document

/-- The row assigns at these paths, and changes only leaves below them. -/
structure Confined (d : Document) (writes : OrderedSet Path) (as : List Assignment) : Prop where
  fields : ∀ a ∈ as, a.field ∈ writes
  leaves : ∀ q, ChangedLeaf d.value (d.assignAll as).value q → ∃ w ∈ writes, w <+: q

/-- Where none of the assignments reaches, a value stays, or is lost, or null takes its place. -/
theorem get?_assignAll_of_apart {as : List Assignment} {p : Path}
    (h : ∀ a ∈ as, ¬ Path.overlaps a.field p = true) (d : Document) :
    (d.assignAll as).value.get? p = d.value.get? p ∨ (d.assignAll as).value.get? p = none ∨
      (d.assignAll as).value.get? p = some .null := by
  induction as generalizing d with
  | nil => exact Or.inl rfl
  | cons a as ih =>
    obtain ⟨ha, has⟩ := List.forall_mem_cons.mp h
    have hfirst := Value.get?_set_of_apart ha d.value a.value.value
    rcases ih has (d.assign a) with heq | hrest
    · rw [assignAll_cons, heq]
      exact hfirst
    · exact Or.inr hrest

namespace Confined

variable {d e : Document} {writes : OrderedSet Path} {as : List Assignment} {q : Path} {c : Value}

/-- **Where a confined row does not reach, the same value stands.** -/
theorem get?_eq (h : d.Confined writes as) (hq : ∀ w ∈ writes, ¬ Path.overlaps w q = true) :
    (d.assignAll as).value.get? q = d.value.get? q := by
  have hagree : d.AgreeAt (d.assignAll as) q := by
    refine agreeAt_of_changedLeaf ?_
    intro r hqr hr
    obtain ⟨w, hw, hwr⟩ := h.leaves r hr
    exact hq w hw (Path.overlaps_iff.mpr (List.prefix_or_prefix_of_prefix hwr hqr))
  -- The values are equal; the few that can stand there are then the same.
  rcases get?_assignAll_of_apart (fun a ha => hq _ (h.fields a ha)) d with heq | hnone | hnull
  · exact heq
  · rw [AgreeAt, hnone] at hagree
    rw [hnone]
    cases hd : d.value.get? q with
    | none => rfl
    | some v => simp [hd, Mutation.sameValue] at hagree
  · rw [AgreeAt, hnull] at hagree
    rw [hnull]
    cases hd : d.value.get? q with
    | none => simp [hd, Mutation.sameValue] at hagree
    | some v => cases v <;> simp_all [Mutation.sameValue, Value.equal]

/-- **A confined row brings no leaf outside its paths.** -/
theorem leaf_before (h : d.Confined writes as) (hq : ∀ w ∈ writes, ¬ w <+: q)
    (hl : c.isLeaf = true) (hc : (d.assignAll as).value.get? q = some c) :
    d.value.get? q = some c := by
  rcases leafAt_assignAll (fun a ha => hq _ (h.fields a ha)) ⟨c, hc, hl⟩ with heq | ⟨hnull, -⟩
  · rw [← heq, hc]
  · -- Padding that was not there before would be a changed leaf.
    by_contra hfresh
    rw [hnull] at hc
    cases hc
    obtain ⟨w, hw, hwq⟩ := h.leaves q (changedLeaf_of_null hnull hfresh)
    exact hq w hw hwq

/-- **A confined row takes no leaf outside its paths** if it holds nothing below that leaf. -/
theorem leaf_after (h : d.Confined writes as) (hq : ∀ w ∈ writes, ¬ w <+: q)
    (hl : c.isLeaf = true) (hc : d.value.get? q = some c)
    (hbelow : ∀ w ∈ writes, q <+: w → (d.assignAll as).value.get? w = none) :
    (d.assignAll as).value.get? q = some c := by
  have hkept : ∃ c', (d.assignAll as).value.get? q = some c' := by
    by_contra hgone
    have hchanged : ChangedLeaf d.value (d.assignAll as).value q :=
      (changedLeaf_iff_of_leaf hc hl).mpr fun c' hc' => absurd ⟨c', hc'⟩ hgone
    obtain ⟨w, hw, hwq⟩ := h.leaves q hchanged
    exact hq w hw hwq
  obtain ⟨c', hc'⟩ := hkept
  by_cases hl' : c'.isLeaf = true
  · have hold : d.value.get? q = some c' := h.leaf_before hq hl' hc'
    rw [hc', ← hold, hc]
  · -- An empty container has got a leaf, which only an assignment below it can have brought.
    obtain ⟨r, b, hb, hlb⟩ :=
      Value.exists_leafAt (Value.wellFormed_of_get? (d.assignAll as).wellFormed hc')
    have hnew : (d.assignAll as).value.get? (q ++ r) = some b := by
      rw [Value.get?_append, hc', Option.bind_some, hb]
    have hold : d.value.get? (q ++ r) = none := by
      cases r with
      | nil =>
        cases hb
        exact absurd hlb hl'
      | cons s r => exact Value.get?_below_leaf hc hl s r
    have hchanged : ChangedLeaf d.value (d.assignAll as).value (q ++ r) := by
      refine ⟨Or.inr ⟨b, hnew, hlb⟩, ?_, ?_⟩ <;> simp [hold, hnew, Mutation.sameValue,
        Value.BothAlike]
    obtain ⟨w, hw, hwr⟩ := h.leaves _ hchanged
    have hqw : q <+: w :=
      (List.prefix_or_prefix_of_prefix hwr (List.prefix_append q r)).resolve_left (hq w hw)
    obtain ⟨u, hu⟩ := hwr
    rw [← hu, Value.get?_append, hbelow w hw hqw] at hnew
    cases hnew

/-- A row changes the same leaves in two documents that hold the same at its paths. -/
theorem changedLeaf_congr (hd : d.Confined writes as) (he : e.Confined writes as)
    (hagree : ∀ w ∈ writes, d.value.get? w = e.value.get? w) :
    ChangedLeaf d.value (d.assignAll as).value q ↔ ChangedLeaf e.value (e.assignAll as).value q := by
  have hcovered (hq : ∃ w ∈ writes, w <+: q) :
      ChangedLeaf d.value (d.assignAll as).value q ↔
        ChangedLeaf e.value (e.assignAll as).value q := by
    obtain ⟨w, hw, r, rfl⟩ := hq
    have hbefore : d.value.get? (w ++ r) = e.value.get? (w ++ r) := by
      rw [Value.get?_append, Value.get?_append, hagree w hw]
    have hafter := get?_assignAll_congr hbefore as
    simp only [ChangedLeaf, LeafAt, hbefore, hafter]
  constructor
  · intro h
    exact (hcovered (hd.leaves q h)).mp h
  · intro h
    exact (hcovered (he.leaves q h)).mpr h

end Confined

/-- Two rows at paths that do not overlap, each of them confined in front of the other one and
behind it. -/
structure Exchangeable (d : Document) (ws : OrderedSet Path) (as : List Assignment)
    (xs : OrderedSet Path) (bs : List Assignment) : Prop where
  apart : ∀ w ∈ ws, ∀ x ∈ xs, ¬ Path.overlaps w x = true
  left : d.Confined ws as
  right : d.Confined xs bs
  left_behind : (d.assignAll bs).Confined ws as
  right_behind : (d.assignAll as).Confined xs bs

namespace Exchangeable

variable {d : Document} {ws xs : OrderedSet Path} {as bs : List Assignment}

theorem symm (h : d.Exchangeable ws as xs bs) : d.Exchangeable xs bs ws as where
  apart x hx w hw := Path.overlaps_comm w x ▸ h.apart w hw x hx
  left := h.right
  right := h.left
  left_behind := h.right_behind
  right_behind := h.left_behind

/-- At the paths of the first row, the order does not matter. -/
theorem get?_eq_left (h : d.Exchangeable ws as xs bs) {w : Path} (hw : w ∈ ws) :
    ((d.assignAll as).assignAll bs).value.get? w =
      ((d.assignAll bs).assignAll as).value.get? w := by
  have hapart : ∀ x ∈ xs, ¬ Path.overlaps x w = true := fun x hx => h.symm.apart x hx w hw
  calc ((d.assignAll as).assignAll bs).value.get? w
      = (d.assignAll as).value.get? w := h.right_behind.get?_eq hapart
    _ = ((d.assignAll bs).assignAll as).value.get? w :=
        get?_assignAll_congr (h.right.get?_eq hapart).symm as

theorem get?_eq (h : d.Exchangeable ws as xs bs) {w : Path} (hw : w ∈ ws ∨ w ∈ xs) :
    ((d.assignAll as).assignAll bs).value.get? w =
      ((d.assignAll bs).assignAll as).value.get? w := by
  rcases hw with hw | hw
  · exact h.get?_eq_left hw
  · exact (h.symm.get?_eq_left hw).symm

/-- Every leaf that there is in the one order is there in the other one. -/
theorem leaf (h : d.Exchangeable ws as xs bs) {q : Path} {c : Value} (hl : c.isLeaf = true)
    (hc : ((d.assignAll as).assignAll bs).value.get? q = some c) :
    ((d.assignAll bs).assignAll as).value.get? q = some c := by
  by_cases hcovered : ∃ w, (w ∈ ws ∨ w ∈ xs) ∧ w <+: q
  · obtain ⟨w, hw, r, rfl⟩ := hcovered
    rwa [Value.get?_append, ← h.get?_eq hw, ← Value.get?_append]
  · -- Back to the document that both orders start from, and forward again.
    have hopen {w : Path} (hw : w ∈ ws ∨ w ∈ xs) : ¬ w <+: q :=
      fun hwq => hcovered ⟨w, hw, hwq⟩
    have hleft : (d.assignAll as).value.get? q = some c :=
      h.right_behind.leaf_before (fun w hw => hopen (Or.inr hw)) hl hc
    have hstart : d.value.get? q = some c :=
      h.left.leaf_before (fun w hw => hopen (Or.inl hw)) hl hleft
    have hbelow {w : Path} (hw : w ∈ ws ∨ w ∈ xs) (hqw : q <+: w) :
        ((d.assignAll bs).assignAll as).value.get? w = none := by
      obtain ⟨r, rfl⟩ := hqw
      rw [← h.get?_eq hw]
      cases r with
      | nil => exact absurd (by simp) (hopen hw)
      | cons s r => exact Value.get?_below_leaf hc hl s r
    have hright : (d.assignAll bs).value.get? q = some c := by
      refine h.right.leaf_after (fun w hw => hopen (Or.inr hw)) hl hstart ?_
      intro x hx hqx
      rw [← h.left_behind.get?_eq fun w hw => h.apart w hw x hx]
      exact hbelow (Or.inr hx) hqx
    exact h.left_behind.leaf_after (fun w hw => hopen (Or.inl hw)) hl hright
      fun w hw hqw => hbelow (Or.inl hw) hqw

/-- **The rows lead to one document in either order.** -/
theorem comm (h : d.Exchangeable ws as xs bs) :
    (d.assignAll as).assignAll bs = (d.assignAll bs).assignAll as := by
  refine Document.ext (Value.eq_of_leaves (wellFormed _) (wellFormed _) ?_)
  intro q c hl
  exact ⟨h.leaf hl, h.symm.leaf hl⟩

end Exchangeable

end Document

end DocumentRules
