/-
The order in which a difference lists its changes.

Two documents of one kind are compared child by child, so the changes between them come in
blocks, one for every step that leads to a child; sorting puts the blocks in the order of the
steps (`Value.steps`):

* **`diff_eq_blocks`** — a difference is the row of the differences between the children;
* **`diff_precedes`** — an earlier change precedes a later one, with everything below it;
* **`touchedLeaves_ascending`** — so the leaves that the changes touch, one change after
  another, are one ascending list.
-/
import DocumentRules.Proofs.Change.Touched
import DocumentRules.Proofs.Document.PathOrder
import Mathlib.Data.List.Nodup
import Mathlib.Data.List.Perm.Basic

namespace DocumentRules

namespace Value

/-! ### The steps to the children -/

/-- The steps that lead to the children of a value. -/
def childSteps : Value → List Step
  | .map entries => entries.map fun e => .key e.1
  | .list items => (List.range items.length).map .index
  | _ => []

theorem mem_childSteps {v : Value} (hv : v.WellFormed) {s : Step} :
    s ∈ childSteps v ↔ ∃ c, child? v s = some c := by
  cases v with
  | map entries =>
    have hasc := (wellFormed_map.mp hv).1
    cases s with
    | key k => simp [childSteps, child?, Entries.find?_eq_some_iff hasc]
    | index i => simp [childSteps, child?]
  | list items =>
    cases s with
    | key k => simp [childSteps, child?]
    | index i => simp [childSteps, child?, List.getElem?_eq_some_iff]
  | _ => simp [childSteps, child?]

theorem nodup_childSteps {v : Value} (hv : v.WellFormed) : (childSteps v).Nodup := by
  cases v with
  | map entries =>
    have hasc := (wellFormed_map.mp hv).1
    refine List.pairwise_map.mpr (hasc.imp ?_)
    intro e f hef hkey
    rw [Step.key.injEq] at hkey
    exact StrictOrder.ne_of_lt hef hkey
  | list items =>
    refine List.pairwise_map.mpr ((List.nodup_range (n := items.length)).imp ?_)
    intro i j hij hindex
    exact hij (Step.index.inj hindex)
  | _ => simp [childSteps]

/-- The steps that lead to a child of one of two values, in ascending order. -/
def steps (u v : Value) : OrderedSet Step := .ofList (childSteps u ++ childSteps v)

theorem mem_steps {u v : Value} (hu : u.WellFormed) (hv : v.WellFormed) {s : Step} :
    s ∈ steps u v ↔ (∃ c, child? u s = some c) ∨ ∃ c, child? v s = some c := by
  rw [steps, OrderedSet.mem_ofList, List.mem_append, mem_childSteps hu, mem_childSteps hv]

/-! ### The blocks of a difference -/

/-- The changes between what two values hold in one place, listed as they are met. -/
def changesBetween : Option Value → Option Value → List Mutation
  | some u, some v => changes u v
  | some u, none => [.removed [] u]
  | none, some v => [.added [] v]
  | none, none => []

theorem addedItems_eq_flatMap (i : Nat) (new : List Value) :
    addedItems i new = (List.range new.length).flatMap fun j =>
      (changesBetween none new[j]?).map (Mutation.under (.index (i + j))) := by
  induction new generalizing i with
  | nil => rfl
  | cons v new ih =>
    have shift (j : Nat) : i + 1 + j = i + (j + 1) := by omega
    rw [addedItems, ih, List.length_cons, List.range_succ_eq_map, List.flatMap_cons,
      List.flatMap_map]
    simp only [shift]
    rfl

theorem itemChanges_eq_flatMap (i : Nat) (old new : List Value) :
    itemChanges i old new = (List.range (max old.length new.length)).flatMap fun j =>
      (changesBetween old[j]? new[j]?).map (Mutation.under (.index (i + j))) := by
  induction old generalizing i new with
  | nil => simpa [itemChanges] using addedItems_eq_flatMap i new
  | cons u old ih =>
    have shift (j : Nat) : i + 1 + j = i + (j + 1) := by omega
    cases new with
    | nil =>
      rw [itemChanges, ih, List.length_nil, Nat.max_zero, Nat.max_zero, List.length_cons,
        List.range_succ_eq_map, List.flatMap_cons, List.flatMap_map]
      simp only [shift]
      rfl
    | cons v new =>
      rw [itemChanges, ih, List.length_cons, List.length_cons, Nat.add_max_add_right,
        List.range_succ_eq_map, List.flatMap_cons, List.flatMap_map]
      simp only [shift]
      rfl

theorem entryChanges_eq_flatMap (old new : List (String × Value)) :
    entryChanges old new = old.flatMap fun e =>
      (changesBetween (some e.2) (Entries.find? e.1 new)).map (Mutation.under (.key e.1)) := by
  induction old with
  | nil => rfl
  | cons e old ih =>
    obtain ⟨k, u⟩ := e
    rw [entryChanges_cons, ih, List.flatMap_cons]
    cases Entries.find? k new <;> rfl

/-- The changes at the steps to the children, one block for every step. -/
def blocks (between : Option Value → Option Value → List Mutation) (u v : Value)
    (steps : List Step) : List Mutation :=
  steps.flatMap fun s => (between (child? u s) (child? v s)).map (Mutation.under s)

/-- The steps to the children, listed in any order without repetition. -/
theorem perm_steps {u v : Value} (hu : u.WellFormed) (hv : v.WellFormed) {ss : List Step}
    (hnodup : ss.Nodup)
    (hmem : ∀ s, s ∈ ss ↔ (∃ c, child? u s = some c) ∨ ∃ c, child? v s = some c) :
    ss.Perm (steps u v).toList := by
  have hascending : (steps u v).toList.Nodup := (steps u v).ascending.imp StrictOrder.ne_of_lt
  refine (List.perm_ext_iff_of_nodup hnodup hascending).mpr fun s => ?_
  rw [hmem, OrderedSet.mem_toList, mem_steps hu hv]

theorem changes_list_perm {old new : List Value} (hu : (Value.list old).WellFormed)
    (hv : (Value.list new).WellFormed) :
    (changes (.list old) (.list new)).Perm
      (blocks changesBetween (.list old) (.list new) (steps (.list old) (.list new)).toList) := by
  have heq : changes (.list old) (.list new) = blocks changesBetween (.list old) (.list new)
      ((List.range (max old.length new.length)).map .index) := by
    rw [changes, itemChanges_eq_flatMap, blocks, List.flatMap_map]
    simp only [Nat.zero_add]
    rfl
  rw [heq]
  refine (perm_steps hu hv ?_ ?_).flatMap_right _
  · exact List.Nodup.map (fun _ _ => Step.index.inj) List.nodup_range
  · intro s
    cases s with
    | key k => simp [child?]
    | index i =>
      simp only [List.mem_map, List.mem_range, Step.index.injEq, exists_eq_right, child?,
        List.getElem?_eq_some_iff, existsAndEq, exists_prop, and_true]
      omega

/-- The entries of the new map under keys that the old one does not have. -/
theorem mem_added {old new : List (String × Value)} (hnew : Entries.Ascending new) {s : Step} :
    s ∈ (new.filter fun e => (Entries.find? e.1 old).isNone).map (fun e => Step.key e.1) ↔
      child? (.map old) s = none ∧ ∃ c, child? (.map new) s = some c := by
  cases s with
  | index i => simp [child?]
  | key k =>
    simp only [List.mem_map, List.mem_filter, Option.isNone_iff_eq_none, Step.key.injEq, child?,
      Entries.find?_eq_some_iff hnew]
    constructor
    · rintro ⟨⟨l, c⟩, ⟨hm, hnone⟩, rfl⟩
      exact ⟨hnone, c, hm⟩
    · rintro ⟨hnone, c, hm⟩
      exact ⟨(k, c), ⟨hm, hnone⟩, rfl⟩

theorem changes_map_perm {old new : List (String × Value)} (hu : (Value.map old).WellFormed)
    (hv : (Value.map new).WellFormed) :
    (changes (.map old) (.map new)).Perm
      (blocks changesBetween (.map old) (.map new) (steps (.map old) (.map new)).toList) := by
  have hold := (wellFormed_map.mp hu).1
  have hnew := (wellFormed_map.mp hv).1
  -- The keys of the old map come first, then those that only the new one has.
  have heq : changes (.map old) (.map new) = blocks changesBetween (.map old) (.map new)
      (childSteps (.map old) ++
        (new.filter fun e => (Entries.find? e.1 old).isNone).map fun e => .key e.1) := by
    rw [changes, entryChanges_eq_flatMap, blocks, List.flatMap_append, childSteps,
      List.flatMap_map, List.flatMap_map, List.map_eq_flatMap]
    refine congrArg₂ (· ++ ·) (List.flatMap_congr fun e he => ?_)
      (List.flatMap_congr fun e he => ?_)
    · rw [child?, child?, (Entries.find?_eq_some_iff hold).mpr he]
    · rw [List.mem_filter, Option.isNone_iff_eq_none] at he
      rw [child?, child?, he.2, (Entries.find?_eq_some_iff hnew).mpr he.1]
      rfl
  rw [heq]
  refine (perm_steps hu hv ?_ ?_).flatMap_right _
  · refine List.nodup_append.mpr ⟨nodup_childSteps hu, ?_, ?_⟩
    · exact (nodup_childSteps hv).sublist (List.filter_sublist.map _)
    · rintro s hs _ ht rfl
      obtain ⟨c, hc⟩ := (mem_childSteps hu).mp hs
      rw [((mem_added hnew).mp ht).1] at hc
      cases hc
  · intro s
    rw [List.mem_append, mem_childSteps hu, mem_added hnew]
    cases child? (.map old) s <;> simp

/-- Two maps or two lists have, in some order, the blocks of changes between their children. -/
theorem changes_perm {u v : Value} (hu : u.WellFormed) (hv : v.WellFormed)
    (hk : alike u v = true) :
    (changes u v).Perm (blocks changesBetween u v (steps u v).toList) := by
  cases u with
  | list old =>
    cases v with
    | list new => exact changes_list_perm hu hv
    | _ => simp [alike] at hk
  | map old =>
    cases v with
    | map new => exact changes_map_perm hu hv
    | _ => simp [alike] at hk
  | _ => simp [alike] at hk

end Value

/-! ### In order -/

/-- The first change, with everything below its path, precedes the second. -/
def Mutation.Precedes (b c : Mutation) : Prop := b.path.Precedes c.path

namespace Value

variable {u v : Value}

/-- The changes between what two documents hold in one place, in the order of their paths. -/
def diffBetween : Option Value → Option Value → List Mutation
  | some u, some v => diff u v
  | a, b => changesBetween a b

theorem diffBetween_perm (a b : Option Value) : (changesBetween a b).Perm (diffBetween a b) := by
  cases a <;> cases b <;> first | exact (sortBy_perm ..).symm | exact List.Perm.refl _

/-- Blocks in the order of their steps are in order if each of them is. -/
theorem blocks_precede
    (hblock : ∀ s a b, child? u s = some a → child? v s = some b →
      (diff a b).Pairwise Mutation.Precedes) :
    (blocks diffBetween u v (steps u v).toList).Pairwise Mutation.Precedes := by
  refine Path.Precedes.pairwise_flatMap id Mutation.path (steps u v).ascending ?_ ?_
  · intro s _ b hb
    obtain ⟨b', -, rfl⟩ := List.mem_map.mp hb
    exact ⟨b'.path, rfl⟩
  · intro s _
    refine List.pairwise_map.mpr ?_
    have htail {cs : List Mutation} (h : cs.Pairwise Mutation.Precedes) :
        cs.Pairwise fun b c => (b.under s).Precedes (c.under s) :=
      h.imp fun hbc => Path.Precedes.tail s hbc
    cases ha : child? u s with
    | none => cases child? v s <;> simp [diffBetween, changesBetween]
    | some a =>
      cases hb : child? v s with
      | none => simp [diffBetween, changesBetween]
      | some b => exact htail (hblock s a b ha hb)

/-- Sorting the changes gives every row of them that is in order. -/
theorem diff_eq_of_perm {cs : List Mutation} (hperm : (changes u v).Perm cs)
    (hcs : cs.Pairwise Mutation.Precedes) : diff u v = cs := by
  refine sortBy_eq_of_perm ?_ ?_ hperm (hcs.imp ?_)
  · intro b c h
    simp only [Bool.not_eq_false', decide_eq_true_eq] at h
    simpa using StrictOrder.asymm h
  · intro a b c hab hbc
    simp only [Bool.not_eq_true', decide_eq_false_iff_not] at hab hbc ⊢
    exact StrictOrder.not_lt_trans hab hbc
  · intro b c hbc
    simpa using hbc.lt

theorem changes_of_not_alike (hk : alike u v = false) :
    changes u v = if equal u v then [] else [.replaced [] u v] := by
  cases u <;> cases v <;> first | rfl | simp [alike] at hk

/-- Values that are not both maps nor both lists differ by one replacement. -/
theorem diff_of_not_alike (hk : alike u v = false) :
    diff u v = if equal u v then [] else [.replaced [] u v] := by
  rw [diff, changes_of_not_alike hk]
  split <;> rfl

theorem diff_eq_and_precedes (hu : u.WellFormed) (hv : v.WellFormed) :
    (diff u v).Pairwise Mutation.Precedes ∧
      (alike u v = true → diff u v = blocks diffBetween u v (steps u v).toList) := by
  induction u using childInduction generalizing v with
  | _ u ih =>
    by_cases hk : alike u v = true
    · have hblocks : (blocks diffBetween u v (steps u v).toList).Pairwise Mutation.Precedes :=
        blocks_precede fun s a b ha hb =>
          (ih s a ha (wellFormed_of_child? hu ha) (wellFormed_of_child? hv hb)).1
      have heq : diff u v = blocks diffBetween u v (steps u v).toList := by
        refine diff_eq_of_perm ((changes_perm hu hv hk).trans ?_) hblocks
        exact List.Perm.flatMap_left _ fun s _ => (diffBetween_perm _ _).map _
      exact ⟨heq ▸ hblocks, fun _ => heq⟩
    · rw [Bool.not_eq_true] at hk
      refine ⟨?_, fun h => by simp [hk] at h⟩
      rw [diff_of_not_alike hk]
      split <;> simp

/-- **The difference of two maps or two lists** is the row of the differences between their
children. -/
theorem diff_eq_blocks (hu : u.WellFormed) (hv : v.WellFormed) (hk : alike u v = true) :
    diff u v = blocks diffBetween u v (steps u v).toList :=
  (diff_eq_and_precedes hu hv).2 hk

/-- **An earlier change of a difference precedes a later one**, with everything below it. -/
theorem diff_precedes (hu : u.WellFormed) (hv : v.WellFormed) :
    (diff u v).Pairwise Mutation.Precedes :=
  (diff_eq_and_precedes hu hv).1

/-! ### The leaves that a difference touches, in order -/

/-- **The touched leaves of a difference**, one change after another, are one ascending list. -/
theorem touchedLeaves_ascending (hu : u.WellFormed) (hv : v.WellFormed) :
    ((diff u v).flatMap fun c => c.touchedLeaves.toList).Pairwise (· < ·) := by
  refine List.pairwise_flatMap.mpr ⟨fun c _ => c.touchedLeaves.ascending, ?_⟩
  refine (diff_precedes hu hv).imp ?_
  intro b c hbc p hp q hq
  obtain ⟨_, _, p', _, rfl⟩ := Mutation.mem_touchedLeaves.mp hp
  obtain ⟨_, _, q', _, rfl⟩ := Mutation.mem_touchedLeaves.mp hq
  exact (hbc.append p' q').lt

end Value

theorem mem_touchedLeaves_diff {d e : Document} {q : Path} :
    (q ∈ (diff d.value e.value).flatMap fun c => c.touchedLeaves.toList) ↔
      Value.ChangedLeaf d.value e.value q := by
  rw [← Value.touched_iff d.wellFormed e.wellFormed]
  simp only [List.mem_flatMap, diff, mem_sortBy, OrderedSet.mem_toList, Value.Touched]

end DocumentRules
