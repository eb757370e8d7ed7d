/-
Agreement of two documents at a path.

Two documents agree at a path if they hold the same value there, or none.  What is said
about runs is said in these terms:

* **`Document.agreeAt_of_changedLeaf`** — where no leaf at or below a path has changed, the
  documents agree;
* **`Document.keepsScalar_of_changedLeaf`** — a scalar that has not changed itself is kept,
  also where the path leads to changed leaves further down.
-/
import DocumentRules.Proofs.Change.Touched

namespace DocumentRules.Document

open Value (ChangedLeaf)

/-- No number in the document is `nan`. -/
def NanFree (d : Document) : Prop := d.value.NanFree

instance (d : Document) : Decidable d.NanFree := inferInstanceAs (Decidable d.value.NanFree)

/-- The two documents hold the same value at the path, or neither holds any. -/
def AgreeAt (d e : Document) (p : Path) : Prop :=
  Mutation.sameValue (d.value.get? p) (e.value.get? p) = true

/-- If the first document holds a scalar at the path, the second holds an equal scalar. -/
def KeepsScalar (d e : Document) (p : Path) : Prop :=
  ∀ u, d.value.get? p = some u → u.isContainer = false →
    ∃ v, e.value.get? p = some v ∧ v.isContainer = false ∧ u.equal v = true

variable {c d e : Document} {p : Path}

namespace AgreeAt

theorem refl (hd : d.NanFree) (p : Path) : d.AgreeAt d p :=
  Mutation.sameValue_refl fun _ hv => Value.nanFree_of_get? hd hv

theorem symm (h : d.AgreeAt e p) : e.AgreeAt d p := Mutation.sameValue_symm h

theorem trans (h : c.AgreeAt d p) (h' : d.AgreeAt e p) : c.AgreeAt e p :=
  Mutation.sameValue_trans h h'

/-- Equal values are both scalars or both containers. -/
theorem keepsScalar (h : d.AgreeAt e p) : d.KeepsScalar e p := by
  intro u hu hs
  rw [AgreeAt, hu, Mutation.sameValue_some_left] at h
  obtain ⟨v, hv, huv⟩ := h
  refine ⟨v, hv, ?_, huv⟩
  by_contra hc
  rw [Bool.not_eq_false] at hc
  have hcu : u.isContainer = true := by
    have halike := Value.alike_of_equal hc (Value.equal_symm huv)
    cases u <;> cases v <;> simp_all [Value.alike, Value.isContainer]
  rw [hcu] at hs
  cases hs

end AgreeAt

namespace KeepsScalar

theorem refl (hd : d.NanFree) (p : Path) : d.KeepsScalar d p := (AgreeAt.refl hd p).keepsScalar

theorem trans (h : c.KeepsScalar d p) (h' : d.KeepsScalar e p) : c.KeepsScalar e p := by
  intro u hu hs
  obtain ⟨v, hv, hvs, huv⟩ := h u hu hs
  obtain ⟨w, hw, hws, hvw⟩ := h' v hv hvs
  exact ⟨w, hw, hws, Value.equal_trans huv hvw⟩

end KeepsScalar

/-- **Where no leaf at or below a path has changed, the documents agree.** -/
theorem agreeAt_of_changedLeaf (h : ∀ q, p <+: q → ¬ ChangedLeaf d.value e.value q) :
    d.AgreeAt e p := by
  by_contra hne
  obtain ⟨q, hpq, hq⟩ := Value.exists_changedLeaf d.wellFormed e.wellFormed hne
  exact h q hpq hq

theorem changedLeaf_symm {u v : Value} {q : Path} (h : ChangedLeaf u v q) : ChangedLeaf v u q := by
  obtain ⟨hleaf, hdiffer, hkind⟩ := h
  refine ⟨hleaf.symm, fun hs => hdiffer (Mutation.sameValue_symm hs), fun hb => hkind ?_⟩
  cases ha : Value.get? u q <;> cases hb' : Value.get? v q <;>
    simp_all [Value.BothAlike, Value.alike_comm]

/-- A leaf has changed if the other value holds neither an equal value in its place nor a
container of its kind. -/
theorem changedLeaf_iff_of_leaf {u v c : Value} {q : Path} (hc : u.get? q = some c)
    (hl : c.isLeaf = true) :
    ChangedLeaf u v q ↔
      ∀ c', v.get? q = some c' → c.equal c' = false ∧ c.alike c' = false := by
  have hleaf : Value.LeafAt u q ∨ Value.LeafAt v q := Or.inl ⟨c, hc, hl⟩
  rw [ChangedLeaf, hc]
  cases v.get? q with
  | none => simpa [Mutation.sameValue, Value.BothAlike] using hleaf
  | some c' => simp [Mutation.sameValue, Value.BothAlike, hleaf]

/-- A null that was not there before is a changed leaf. -/
theorem changedLeaf_of_null {u v : Value} {q : Path} (null : v.get? q = some .null)
    (fresh : u.get? q ≠ some .null) : ChangedLeaf u v q := by
  refine changedLeaf_symm ((changedLeaf_iff_of_leaf null rfl).mpr ?_)
  intro c hc
  cases c with
  | null => exact absurd hc fresh
  | _ => exact ⟨rfl, rfl⟩

/-- **A scalar that has not changed itself is kept.** -/
theorem keepsScalar_of_changedLeaf (h : ¬ ChangedLeaf d.value e.value p) : d.KeepsScalar e p := by
  intro u hu hs
  by_contra hlost
  refine h ⟨Or.inl ⟨u, hu, Value.isLeaf_of_scalar hs⟩, ?_, ?_⟩
  · intro hagree
    exact hlost (AgreeAt.keepsScalar hagree u hu hs)
  · -- A scalar is neither a map nor a list.
    intro hboth
    rw [hu] at hboth
    cases he : Value.get? e.value p <;> cases u <;>
      simp_all [Value.BothAlike, Value.alike, Value.isContainer]

end DocumentRules.Document
