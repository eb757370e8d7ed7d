/-
Which leaves a difference touches.

A leaf of one of two documents has changed if the other document does not hold the same
value there; a container that keeps its kind has not changed itself, only its members
may have (`Value.ChangedLeaf`).

* **`Value.touched_iff`** — the changes of a difference touch exactly the changed leaves;
* **`Value.exists_changedLeaf`** — if two documents do not agree at a path, some leaf at or
  below it has changed.

Both descend one step at a time: two maps or two lists are compared child by child
(`touched_iff_child`), and any other two values are one replacement (`touched_of_not_alike`).
-/
import DocumentRules.Change.Diff
import DocumentRules.Proofs.Document.Leaf

namespace DocumentRules

open Mutation (sameValue)

namespace Value

/-! ### Changed leaves -/

/-- Both values are there, and both are maps or both are lists. -/
def BothAlike : Option Value → Option Value → Prop
  | some u, some v => alike u v = true
  | _, _ => False

/-- A leaf of one of the values that the other one does not have: the values at the path
differ, and they are neither both maps nor both lists. -/
def ChangedLeaf (u v : Value) (q : Path) : Prop :=
  (LeafAt u q ∨ LeafAt v q) ∧ ¬ sameValue (get? u q) (get? v q) = true ∧
    ¬ BothAlike (get? u q) (get? v q)

/-- The leaves that have changed between two values that may be missing. -/
def ChangedBetween : Option Value → Option Value → Path → Prop
  | some u, some v, q => ChangedLeaf u v q
  | some u, none, q => LeafAt u q
  | none, some v, q => LeafAt v q
  | none, none, _ => False

theorem changedBetween_none_left {b : Option Value} {q : Path} :
    ChangedBetween none b q ↔ ∃ v, b = some v ∧ LeafAt v q := by
  cases b <;> simp [ChangedBetween]

theorem changedBetween_none_right {a : Option Value} {q : Path} :
    ChangedBetween a none q ↔ ∃ u, a = some u ∧ LeafAt u q := by
  cases a <;> simp [ChangedBetween]

/-- A changed leaf below the top is a changed leaf between the children on the way to it. -/
theorem changedLeaf_cons {u v : Value} {s : Step} {q : Path} :
    ChangedLeaf u v (s :: q) ↔ ChangedBetween (child? u s) (child? v s) q := by
  simp only [ChangedLeaf, leafAt_cons, get?_cons]
  cases child? u s <;> cases child? v s <;>
    simp [ChangedBetween, ChangedLeaf, sameValue, BothAlike]
  all_goals
    rintro ⟨w, hw, -⟩
    simp [hw]

end Value

/-! ### The leaves that one change touches -/

namespace Mutation

theorem mem_touchedLeaves {c : Mutation} {q : Path} :
    q ∈ c.touchedLeaves ↔
      ∃ v, (c.old = some v ∨ c.new = some v) ∧ ∃ p ∈ v.leaves, q = c.path ++ p := by
  simp only [touchedLeaves, OrderedSet.mem_ofList, List.mem_flatMap, List.mem_append,
    Option.mem_toList, Value.leavesFrom, List.mem_map]
  constructor
  · rintro ⟨v, hv, p, hp, rfl⟩
    exact ⟨v, hv, p, hp, rfl⟩
  · rintro ⟨v, hv, p, hp, rfl⟩
    exact ⟨v, hv, p, hp, rfl⟩

@[simp] theorem mem_touchedLeaves_under {c : Mutation} {s : Step} {q : Path} :
    q ∈ (c.under s).touchedLeaves ↔ ∃ p ∈ c.touchedLeaves, q = s :: p := by
  simp only [mem_touchedLeaves, under, List.cons_append]
  constructor
  · rintro ⟨v, hv, p, hp, rfl⟩
    exact ⟨_, ⟨v, hv, p, hp, rfl⟩, rfl⟩
  · rintro ⟨_, ⟨v, hv, p, hp, rfl⟩, rfl⟩
    exact ⟨v, hv, p, hp, rfl⟩

@[simp] theorem mem_touchedLeaves_added {s : Step} {v : Value} {q : Path} :
    q ∈ (added [s] v).touchedLeaves ↔ ∃ p ∈ v.leaves, q = s :: p := by
  simp [mem_touchedLeaves, added]

@[simp] theorem mem_touchedLeaves_removed {s : Step} {v : Value} {q : Path} :
    q ∈ (removed [s] v).touchedLeaves ↔ ∃ p ∈ v.leaves, q = s :: p := by
  simp [mem_touchedLeaves, removed]

@[simp] theorem mem_touchedLeaves_replaced {u v : Value} {q : Path} :
    q ∈ (replaced [] u v).touchedLeaves ↔ q ∈ u.leaves ∨ q ∈ v.leaves := by
  simp [mem_touchedLeaves, replaced, or_and_right, exists_or]

@[simp] theorem touchedLeaves_byRule (id : String) (c : Mutation) :
    (c.byRule id).touchedLeaves = c.touchedLeaves := rfl

theorem touches_iff {b : Mutation} {p : Path} :
    b.touches p = true ↔ ∃ q ∈ b.touchedLeaves, p <+: q := by
  simp [touches, Path.covers_iff, OrderedSet.mem_toList]

end Mutation

/-! ### The leaves that a difference touches -/

namespace Value

/-- Some change from one value to the other touches the leaf. -/
def Touched (u v : Value) (q : Path) : Prop := ∃ c ∈ changes u v, q ∈ c.touchedLeaves

/-- Some change between two values that may be missing touches the leaf. -/
def TouchedBetween : Option Value → Option Value → Path → Prop
  | some u, some v, q => Touched u v q
  | some u, none, q => q ∈ leaves u
  | none, some v, q => q ∈ leaves v
  | none, none, _ => False

theorem mem_addedItems {i : Nat} {items : List Value} {c : Mutation} :
    c ∈ addedItems i items ↔ ∃ j v, items[j]? = some v ∧ c = .added [.index (i + j)] v := by
  induction items generalizing i with
  | nil => simp [addedItems]
  | cons w ws ih =>
    simp only [addedItems, List.mem_cons, ih]
    constructor
    · rintro (rfl | ⟨j, v, hv, rfl⟩)
      · exact ⟨0, w, rfl, rfl⟩
      · exact ⟨j + 1, v, hv, by rw [Nat.add_right_comm, Nat.add_assoc]⟩
    · rintro ⟨j, v, hv, rfl⟩
      cases j with
      | zero =>
        cases hv
        exact Or.inl rfl
      | succ j => exact Or.inr ⟨j, v, hv, by rw [Nat.add_right_comm, Nat.add_assoc]⟩

/-- What the changes of two lists touch, position by position. -/
theorem touched_itemChanges {i : Nat} {old new : List Value} {q : Path} :
    (∃ c ∈ itemChanges i old new, q ∈ c.touchedLeaves) ↔
      ∃ j p, TouchedBetween old[j]? new[j]? p ∧ q = .index (i + j) :: p := by
  induction old generalizing i new with
  | nil =>
    simp only [itemChanges, mem_addedItems, List.getElem?_nil]
    constructor
    · rintro ⟨_, ⟨j, v, hv, rfl⟩, hq⟩
      obtain ⟨p, hp, rfl⟩ := Mutation.mem_touchedLeaves_added.mp hq
      exact ⟨j, p, by simpa [hv, TouchedBetween] using hp, rfl⟩
    · rintro ⟨j, p, hp, rfl⟩
      cases hv : new[j]? with
      | none => simp [hv, TouchedBetween] at hp
      | some v =>
        rw [hv] at hp
        exact ⟨_, ⟨j, v, hv, rfl⟩, Mutation.mem_touchedLeaves_added.mpr ⟨p, hp, rfl⟩⟩
  | cons u old ih =>
    have shift (j : Nat) : i + 1 + j = i + (j + 1) := by omega
    cases new with
    | nil =>
      simp only [itemChanges, List.mem_cons, exists_eq_or_imp, ih,
        Mutation.mem_touchedLeaves_removed]
      constructor
      · rintro (⟨p, hp, rfl⟩ | ⟨j, p, hp, rfl⟩)
        · exact ⟨0, p, hp, rfl⟩
        · exact ⟨j + 1, p, hp, by rw [shift]⟩
      · rintro ⟨j, p, hp, rfl⟩
        cases j with
        | zero => exact Or.inl ⟨p, hp, rfl⟩
        | succ j => exact Or.inr ⟨j, p, hp, by rw [shift]⟩
    | cons v new =>
      simp only [itemChanges, List.mem_append, List.mem_map, or_and_right, exists_or, ih]
      constructor
      · rintro (⟨_, ⟨c, hc, rfl⟩, hq⟩ | ⟨j, p, hp, rfl⟩)
        · obtain ⟨p, hp, rfl⟩ := Mutation.mem_touchedLeaves_under.mp hq
          exact ⟨0, p, ⟨c, hc, hp⟩, rfl⟩
        · exact ⟨j + 1, p, hp, by rw [shift]⟩
      · rintro ⟨j, p, hp, rfl⟩
        cases j with
        | zero =>
          obtain ⟨c, hc, hq⟩ := hp
          exact Or.inl ⟨_, ⟨c, hc, rfl⟩, Mutation.mem_touchedLeaves_under.mpr ⟨p, hq, rfl⟩⟩
        | succ j => exact Or.inr ⟨j, p, hp, by rw [shift]⟩

/-- The changes at one entry, given what the new map holds under its key. -/
def entryChange (k : String) (u : Value) : Option Value → List Mutation
  | some v => (changes u v).map (Mutation.under (.key k))
  | none => [.removed [.key k] u]

theorem entryChanges_cons (k : String) (u : Value) (old new : List (String × Value)) :
    entryChanges ((k, u) :: old) new =
      entryChange k u (Entries.find? k new) ++ entryChanges old new := by
  rw [entryChanges]
  cases Entries.find? k new <;> rfl

theorem touched_entryChange {k : String} {u : Value} {b : Option Value} {q : Path} :
    (∃ c ∈ entryChange k u b, q ∈ c.touchedLeaves) ↔
      ∃ p, TouchedBetween (some u) b p ∧ q = .key k :: p := by
  cases b with
  | none => simp [entryChange, TouchedBetween]
  | some v =>
    simp only [entryChange, List.mem_map, TouchedBetween, Touched]
    constructor
    · rintro ⟨_, ⟨c, hc, rfl⟩, hq⟩
      obtain ⟨p, hp, rfl⟩ := Mutation.mem_touchedLeaves_under.mp hq
      exact ⟨p, ⟨c, hc, hp⟩, rfl⟩
    · rintro ⟨p, ⟨c, hc, hp⟩, rfl⟩
      exact ⟨_, ⟨c, hc, rfl⟩, Mutation.mem_touchedLeaves_under.mpr ⟨p, hp, rfl⟩⟩

/-- What the changes at the entries of the old map touch. -/
theorem touched_entryChanges {old new : List (String × Value)} {q : Path} :
    (∃ c ∈ entryChanges old new, q ∈ c.touchedLeaves) ↔
      ∃ k u p, (k, u) ∈ old ∧ TouchedBetween (some u) (Entries.find? k new) p ∧
        q = .key k :: p := by
  induction old with
  | nil => simp [entryChanges]
  | cons e old ih =>
    obtain ⟨k, u⟩ := e
    simp only [entryChanges_cons, List.mem_append, or_and_right, exists_or, ih,
      touched_entryChange, List.mem_cons, Prod.mk.injEq]
    constructor
    · rintro (⟨p, hp, rfl⟩ | ⟨l, w, p, hm, hp, rfl⟩)
      · exact Or.inl ⟨k, u, p, ⟨rfl, rfl⟩, hp, rfl⟩
      · exact Or.inr ⟨l, w, p, hm, hp, rfl⟩
    · rintro (⟨l, w, p, ⟨rfl, rfl⟩, hp, rfl⟩ | ⟨l, w, p, hm, hp, rfl⟩)
      · exact Or.inl ⟨p, hp, rfl⟩
      · exact Or.inr ⟨l, w, p, hm, hp, rfl⟩

/-- Two maps are compared entry by entry. -/
theorem touched_map {old new : List (String × Value)} (ho : Entries.Ascending old)
    (hn : Entries.Ascending new) {q : Path} :
    Touched (.map old) (.map new) q ↔
      ∃ k p, TouchedBetween (Entries.find? k old) (Entries.find? k new) p ∧
        q = .key k :: p := by
  simp only [Touched, changes, List.mem_append, or_and_right, exists_or, touched_entryChanges,
    List.mem_map, List.mem_filter, Option.isNone_iff_eq_none]
  constructor
  · rintro (⟨k, u, p, hm, hp, rfl⟩ | ⟨_, ⟨⟨k, v⟩, ⟨hm, hk⟩, rfl⟩, hq⟩)
    · exact ⟨k, p, by rwa [(Entries.find?_eq_some_iff ho).mpr hm], rfl⟩
    · obtain ⟨p, hp, rfl⟩ := Mutation.mem_touchedLeaves_added.mp hq
      exact ⟨k, p, by rwa [hk, (Entries.find?_eq_some_iff hn).mpr hm], rfl⟩
  · rintro ⟨k, p, hp, rfl⟩
    -- A key of the old map is in the first part of the list, a new one in the second.
    cases hu : Entries.find? k old with
    | some u =>
      rw [hu] at hp
      exact Or.inl ⟨k, u, p, Entries.mem_of_find? hu, hp, rfl⟩
    | none =>
      cases hv : Entries.find? k new with
      | none => simp [hu, hv, TouchedBetween] at hp
      | some v =>
        rw [hu, hv] at hp
        exact Or.inr ⟨_, ⟨(k, v), ⟨Entries.mem_of_find? hv, hu⟩, rfl⟩,
          Mutation.mem_touchedLeaves_added.mpr ⟨p, hp, rfl⟩⟩

/-- Two maps or two lists are compared child by child. -/
theorem touched_iff_child {u v : Value} (hu : u.WellFormed) (hv : v.WellFormed)
    (hk : alike u v = true) {q : Path} :
    Touched u v q ↔ ∃ s p, TouchedBetween (child? u s) (child? v s) p ∧ q = s :: p := by
  match u, v with
  | .map old, .map new =>
    rw [touched_map (wellFormed_map.mp hu).1 (wellFormed_map.mp hv).1]
    constructor
    · rintro ⟨k, p, hp, rfl⟩
      exact ⟨.key k, p, hp, rfl⟩
    · rintro ⟨s, p, hp, rfl⟩
      cases s with
      | key k => exact ⟨k, p, hp, rfl⟩
      | index i => simp [child?, TouchedBetween] at hp
  | .list old, .list new =>
    rw [show Touched (.list old) (.list new) q ↔ _ from touched_itemChanges]
    constructor
    · rintro ⟨j, p, hp, rfl⟩
      exact ⟨.index j, p, hp, by rw [Nat.zero_add]⟩
    · rintro ⟨s, p, hp, rfl⟩
      cases s with
      | index j => exact ⟨j, p, hp, by rw [Nat.zero_add]⟩
      | key k => simp [child?, TouchedBetween] at hp
  | .null, _ | .bool _, _ | .int _, _ | .float _, _ | .string _, _ => simp [alike] at hk
  | .map _, .null | .map _, .bool _ | .map _, .int _ | .map _, .float _ | .map _, .string _
  | .map _, .list _ => simp [alike] at hk
  | .list _, .null | .list _, .bool _ | .list _, .int _ | .list _, .float _
  | .list _, .string _ | .list _, .map _ => simp [alike] at hk

/-- Any other two values are one replacement. -/
theorem touched_of_not_alike {u v : Value} (hk : alike u v = false) {q : Path} :
    Touched u v q ↔ equal u v = false ∧ (q ∈ leaves u ∨ q ∈ leaves v) := by
  have hc : changes u v = if equal u v then [] else [.replaced [] u v] := by
    cases u <;> cases v <;> first | rfl | simp [alike] at hk
  rw [Touched, hc]
  cases equal u v <;> simp

/-! ### Touched leaves are changed leaves -/

/-- A value with a child is equal only to values that are alike. -/
theorem equal_eq_false_of_child? {u v a : Value} {s : Step} (hu : child? u s = some a)
    (hk : alike u v = false) : equal u v = false := by
  rw [Bool.eq_false_iff]
  intro he
  have hcont : u.isContainer = true := by
    by_contra hs
    rw [child?_of_scalar (by simpa using hs)] at hu
    cases hu
  rw [alike_of_equal hcont he] at hk
  cases hk

/-- Two values that are not alike have all their leaves in changed places, unless they are
equal. -/
theorem changedLeaf_of_not_alike {u v : Value} (hk : alike u v = false) {q : Path} :
    ChangedLeaf u v q ↔ equal u v = false ∧ (LeafAt u q ∨ LeafAt v q) := by
  cases q with
  | nil => simp [ChangedLeaf, sameValue, BothAlike, hk, and_comm]
  | cons s q =>
    rw [changedLeaf_cons, leafAt_cons, leafAt_cons]
    -- Only one of the two values can have a child at this step.
    cases hu : child? u s with
    | some a =>
      cases hv : child? v s with
      | some b =>
        rw [alike_of_child? hu hv] at hk
        cases hk
      | none => simp [ChangedBetween, equal_eq_false_of_child? hu hk]
    | none =>
      cases hv : child? v s with
      | none => simp [ChangedBetween]
      | some b =>
        have hne : equal u v = false := by
          rw [Bool.eq_false_iff]
          intro he
          have := equal_eq_false_of_child? hv (alike_comm u v ▸ hk)
          rw [equal_symm he] at this
          cases this
        simp [ChangedBetween, hne]

/-- One replacement touches the changed leaves. -/
theorem touched_iff_of_not_alike {u v : Value} (hu : u.WellFormed) (hv : v.WellFormed)
    (hk : alike u v = false) {q : Path} : Touched u v q ↔ ChangedLeaf u v q := by
  rw [touched_of_not_alike hk, changedLeaf_of_not_alike hk, mem_leaves_iff hu, mem_leaves_iff hv]

/-- **A difference touches exactly the changed leaves.** -/
theorem touched_iff {u v : Value} (hu : u.WellFormed) (hv : v.WellFormed) {q : Path} :
    Touched u v q ↔ ChangedLeaf u v q := by
  induction q generalizing u v with
  | nil =>
    by_cases hk : alike u v = true
    · -- Containers of one kind have changes below them and none at their own place.
      rw [touched_iff_child hu hv hk]
      constructor
      · rintro ⟨s, p, _, he⟩
        cases he
      · intro h
        exact absurd hk h.2.2
    · exact touched_iff_of_not_alike hu hv (by simpa using hk)
  | cons s q ih =>
    by_cases hk : alike u v = true
    · have hs : TouchedBetween (child? u s) (child? v s) q ↔
          ChangedBetween (child? u s) (child? v s) q := by
        cases ha : child? u s with
        | none =>
          cases hb : child? v s with
          | none => rfl
          | some b => exact mem_leaves_iff (wellFormed_of_child? hv hb)
        | some a =>
          cases hb : child? v s with
          | none => exact mem_leaves_iff (wellFormed_of_child? hu ha)
          | some b => exact ih (wellFormed_of_child? hu ha) (wellFormed_of_child? hv hb)
      rw [touched_iff_child hu hv hk, changedLeaf_cons, ← hs]
      constructor
      · rintro ⟨s', p, hp, he⟩
        cases he
        exact hp
      · intro hp
        exact ⟨s, q, hp, rfl⟩
    · exact touched_iff_of_not_alike hu hv (by simpa using hk)

/-! ### Disagreement shows at a leaf -/

/-- Values that may be missing and are not the same have a changed leaf between them, if
this holds of the two values where none is missing. -/
theorem exists_changedBetween {a b : Option Value} (ha : ∀ u, a = some u → u.WellFormed)
    (hb : ∀ v, b = some v → v.WellFormed) (h : ¬ sameValue a b = true)
    (both : ∀ u v, a = some u → b = some v → equal u v = false → ∃ p, ChangedLeaf u v p) :
    ∃ p, ChangedBetween a b p := by
  match a, b with
  | none, none => exact absurd rfl h
  | none, some v =>
    obtain ⟨p, hp⟩ := exists_mem_leaves v (hb v rfl)
    exact ⟨p, (mem_leaves_iff (hb v rfl)).mp hp⟩
  | some u, none =>
    obtain ⟨p, hp⟩ := exists_mem_leaves u (ha u rfl)
    exact ⟨p, (mem_leaves_iff (ha u rfl)).mp hp⟩
  | some u, some v => exact both u v rfl rfl (by simpa [sameValue] using h)

/-- Two values that are not equal have a changed leaf. -/
theorem exists_changedLeaf_of_not_equal {u v : Value} (hu : u.WellFormed) (hv : v.WellFormed)
    (h : equal u v = false) : ∃ p, ChangedLeaf u v p := by
  induction u using childInduction generalizing v with
  | _ u ih =>
    by_cases hk : alike u v = true
    · -- Some child differs, and the changed leaf stands below it.
      have hs : ∃ s, ¬ sameValue (child? u s) (child? v s) = true := by
        by_contra hall
        push Not at hall
        rw [equal_of_children hu hv hk hall] at h
        cases h
      obtain ⟨s, hs⟩ := hs
      obtain ⟨p, hp⟩ := exists_changedBetween (fun c hc => wellFormed_of_child? hu hc)
        (fun c hc => wellFormed_of_child? hv hc) hs fun a b ha hb hab =>
          ih s a ha (wellFormed_of_child? hu ha) (wellFormed_of_child? hv hb) hab
      exact ⟨s :: p, changedLeaf_cons.mpr hp⟩
    · -- The whole value was replaced, and every leaf of it has changed.
      rw [Bool.not_eq_true] at hk
      obtain ⟨p, hp⟩ := exists_mem_leaves u hu
      exact ⟨p, (changedLeaf_of_not_alike hk).mpr ⟨h, Or.inl ((mem_leaves_iff hu).mp hp)⟩⟩

/-- The changed leaves below a path are those between the values that stand there. -/
theorem changedLeaf_append {u v : Value} {p q : Path} :
    ChangedLeaf u v (p ++ q) ↔ ChangedBetween (get? u p) (get? v p) q := by
  induction p generalizing u v with
  | nil => rfl
  | cons s p ih =>
    rw [List.cons_append, changedLeaf_cons, get?_cons, get?_cons]
    cases child? u s <;> cases child? v s <;>
      simp [changedBetween_none_left, changedBetween_none_right, leafAt_append]
    exact ih

/-- **If two documents do not agree at a path, some leaf at or below it has changed.** -/
theorem exists_changedLeaf {u v : Value} (hu : u.WellFormed) (hv : v.WellFormed) {p : Path}
    (h : ¬ sameValue (get? u p) (get? v p) = true) : ∃ q, p <+: q ∧ ChangedLeaf u v q := by
  obtain ⟨q, hq⟩ := exists_changedBetween (fun c hc => wellFormed_of_get? hu hc)
    (fun c hc => wellFormed_of_get? hv hc) h fun a b ha hb hab =>
      exists_changedLeaf_of_not_equal (wellFormed_of_get? hu ha) (wellFormed_of_get? hv hb) hab
  exact ⟨p ++ q, List.prefix_append p q, changedLeaf_append.mpr hq⟩

end Value

end DocumentRules
