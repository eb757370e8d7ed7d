/-
A document and its leaves.

The leaves of a value are listed in the order of their paths, and no leaf stands at or below
another one.  Together they are the whole value: starting from null, setting every leaf in its
place gives the value again, in whatever order they are set.

* **`Value.leaves_precede`** — the order of the leaves;
* **`Value.has_of_has_set`** — setting a leaf of a value in a draft of it brings only places that
  the value has, padding included;
* **`Value.get?_set_of_leaves`** — and the leaves that have been set already stay;
* **`leaves_rebuild`** — what is listed, in which order, and that it rebuilds the document.
-/
import DocumentRules.Proofs.Document.Assignment
import DocumentRules.Proofs.Document.PathOrder
import Mathlib.Data.List.Induction

namespace DocumentRules

namespace Value

/-! ### The order of the leaves -/

theorem itemLeaves_eq_flatMap (i : Nat) (items : List Value) :
    itemLeaves i items =
      (items.zipIdx i).flatMap fun e => (leaves e.1).map (Step.index e.2 :: ·) := by
  induction items generalizing i with
  | nil => rfl
  | cons v vs ih => rw [itemLeaves, ih, List.zipIdx_cons, List.flatMap_cons]

theorem entryLeaves_eq_flatMap (entries : List (String × Value)) :
    entryLeaves entries = entries.flatMap fun e => (leaves e.2).map (Step.key e.1 :: ·) := by
  induction entries with
  | nil => rfl
  | cons e es ih =>
    obtain ⟨k, v⟩ := e
    rw [entryLeaves, ih, List.flatMap_cons]

theorem pairwise_zipIdx {α : Type} (i : Nat) (xs : List α) :
    (xs.zipIdx i).Pairwise fun e f => Step.index e.2 < Step.index f.2 := by
  induction xs generalizing i with
  | nil => exact List.Pairwise.nil
  | cons x xs ih => exact List.pairwise_cons.mpr ⟨fun e he => List.le_snd_of_mem_zipIdx he, ih _⟩

/-- The leaves below one step, in order if the leaves of the child are. -/
theorem pairwise_under {s : Step} {ps : List Path} (h : ps.Pairwise Path.Precedes) :
    (ps.map (s :: ·)).Pairwise Path.Precedes :=
  List.pairwise_map.mpr (h.imp fun hpq => .tail s hpq)

/-- **An earlier leaf precedes a later one.** -/
theorem leaves_precede {v : Value} (hv : v.WellFormed) : (leaves v).Pairwise Path.Precedes := by
  induction v using memberInduction with
  | scalar v h =>
    rw [leaves_of_isLeaf (isLeaf_of_scalar h)]
    exact List.pairwise_singleton ..
  | list items ih =>
    cases items with
    | nil => exact List.pairwise_singleton ..
    | cons item items =>
      rw [leaves, itemLeaves_eq_flatMap]
      refine Path.Precedes.pairwise_flatMap (fun e : Value × Nat => .index e.2) id (pairwise_zipIdx 0 _) ?_ ?_
      · intro e _ p hp
        obtain ⟨q, -, rfl⟩ := List.mem_map.mp hp
        exact ⟨q, rfl⟩
      · intro e he
        have hmem := List.fst_mem_of_mem_zipIdx he
        exact pairwise_under (ih e.1 hmem (wellFormed_list.mp hv e.1 hmem))
  | map entries ih =>
    cases entries with
    | nil => exact List.pairwise_singleton ..
    | cons entry entries =>
      rw [leaves, entryLeaves_eq_flatMap]
      refine Path.Precedes.pairwise_flatMap (fun e : String × Value => .key e.1) id (wellFormed_map.mp hv).1 ?_ ?_
      · intro e _ p hp
        obtain ⟨q, -, rfl⟩ := List.mem_map.mp hp
        exact ⟨q, rfl⟩
      · intro e he
        exact pairwise_under (ih e he ((wellFormed_map.mp hv).2 e he))

/-! ### Setting leaves in a draft -/

/-- No leaf stands at or below another one. -/
theorem LeafAt.not_prefix {v : Value} {p q : Path} (hp : LeafAt v p) (hq : LeafAt v q)
    (hne : p ≠ q) : ¬ p <+: q := by
  rintro ⟨r, rfl⟩
  obtain ⟨c, hc, hleaf⟩ := hp
  obtain ⟨w, hw, -⟩ := hq
  cases r with
  | nil => exact hne (List.append_nil p).symm
  | cons s r =>
    rw [get?_below_leaf hc hleaf] at hw
    cases hw

/-- **Setting a leaf in a draft** brings only places that the value has: those on the way to the
leaf, and list members in front of it. -/
theorem has_of_has_set {v d c : Value} {p q : Path} (hc : get? v p = some c)
    (hleaf : c.isLeaf = true) (hdraft : ∀ q, has d q = true → has v q = true)
    (hq : has (set d p c) q = true) : has v q = true := by
  rcases Path.parts p q with ⟨r, rfl⟩ | ⟨s, r, rfl⟩ | ⟨r, s, t, p', q', hne, rfl, rfl⟩
  · -- Nothing stands below the leaf that is set.
    cases r with
    | nil => rw [has, List.append_nil, hc]; rfl
    | cons s r =>
      rw [has, get?_below_leaf (get?_set_self d c p) hleaf] at hq
      cases hq
  · obtain ⟨b, -, hb, -⟩ := exists_child?_of_get? hc
    rw [has, hb]
    rfl
  · obtain ⟨b, a, hb, ha, -⟩ := exists_child?_of_get? hc
    rw [has, get?_set_beside hne] at hq
    cases hold : (if s.sameKind t then get? d (r ++ t :: q') else none) with
    | some w =>
      split at hold
      · exact hdraft _ (by rw [has, hold]; rfl)
      · cases hold
    | none =>
      -- Padding stands in front of an index that leads to a child of the value.
      rw [hold, Option.none_or] at hq
      obtain ⟨w, hw⟩ := Option.isSome_iff_exists.mp hq
      obtain ⟨n, hpad, hn⟩ := Option.bind_eq_some_iff.mp hw
      obtain ⟨rfl, i, j, rfl, rfl, hlt⟩ := padding_eq_some hpad
      cases q' with
      | cons _ _ => cases hn
      | nil =>
        have hchild : child? b (.index j) ≠ none := child?_of_inFront ha hlt
        rw [has, get?_append, hb, Option.bind_some, get?_cons]
        cases hj : child? b (.index j) with
        | none => exact absurd hj hchild
        | some w => rfl

/-- **Leaves that have been set stay** when another leaf is set. -/
theorem get?_set_of_leaves {v d c w : Value} {p q : Path} (hp : LeafAt v p) (hq : LeafAt v q)
    (hne : p ≠ q) (hw : get? d q = some w) : get? (set d p c) q = some w := by
  rcases Path.parts p q with h | ⟨s, r, rfl⟩ | ⟨r, s, t, p', q', hst, rfl, rfl⟩
  · exact absurd h (hp.not_prefix hq hne)
  · exact absurd (List.prefix_append ..) (hq.not_prefix hp hne.symm)
  · obtain ⟨x, hx, -⟩ := hp
    obtain ⟨y, hy, -⟩ := hq
    obtain ⟨b, a, hb, ha, -⟩ := exists_child?_of_get? hx
    obtain ⟨b', a', hb', ha', -⟩ := exists_child?_of_get? hy
    obtain rfl : b = b' := Option.some.inj (hb.symm.trans hb')
    rw [get?_set_beside hst, sameKind_of_child? ha ha', if_pos rfl, hw, Option.some_or]

end Value

/-! ### The document from its leaves -/

namespace Document

/-- What comes of null when what stands at the paths in the document is set there, one path after
another. -/
def rebuilt (v : Document) (ps : List Path) : Document :=
  ps.foldl (fun d p => d.set p ((v.get? p).getD null)) null

variable {v : Document} {ps : List Path}

theorem rebuilt_append_singleton (v : Document) (ps : List Path) (p : Path) :
    v.rebuilt (ps ++ [p]) = (v.rebuilt ps).set p ((v.get? p).getD null) :=
  List.foldl_concat ..

theorem value_getD_get? {p : Path} {c : Value} (hc : v.value.get? p = some c) :
    ((v.get? p).getD null).value = c := by
  rw [← map_value_get?, Option.map_eq_some_iff] at hc
  obtain ⟨w, hw, rfl⟩ := hc
  rw [hw, Option.getD_some]

/-- **A draft of the document**: it has no place that the document does not have, and at the
leaves that have been set it holds what the document holds. -/
theorem rebuilt_drafts (hps : ∀ p ∈ ps, v.value.LeafAt p) :
    (∀ q, (v.rebuilt ps).value.has q = true → v.value.has q = true) ∧
      ∀ q ∈ ps, (v.rebuilt ps).value.get? q = v.value.get? q := by
  induction ps using List.reverseRecOn with
  | nil =>
    refine ⟨fun q hq => ?_, fun q hq => absurd hq List.not_mem_nil⟩
    cases q with
    | nil => rfl
    | cons s q => cases hq
  | append_singleton ps p ih =>
    obtain ⟨c, hc, hleaf⟩ := hps p (by simp)
    obtain ⟨hdraft, hset⟩ := ih fun q hq => hps q (List.mem_append_left _ hq)
    have hvalue : (v.rebuilt (ps ++ [p])).value = (v.rebuilt ps).value.set p c := by
      rw [rebuilt_append_singleton]
      exact congrArg ((v.rebuilt ps).value.set p) (value_getD_get? hc)
    rw [hvalue]
    refine ⟨fun q hq => Value.has_of_has_set hc hleaf hdraft hq, fun q hq => ?_⟩
    by_cases hpq : p = q
    · rw [← hpq, Value.get?_set_self, hc]
    · have hq' : q ∈ ps := by simpa [Ne.symm hpq] using hq
      obtain ⟨w, hw, hwleaf⟩ := hps q hq
      rw [hw]
      exact Value.get?_set_of_leaves ⟨c, hc, hleaf⟩ ⟨w, hw, hwleaf⟩ hpq ((hset q hq').trans hw)

/-- **The leaves rebuild the document**, in whatever order they are set. -/
theorem rebuilt_eq (hps : ∀ p, p ∈ ps ↔ v.value.LeafAt p) : v.rebuilt ps = v := by
  obtain ⟨hdraft, hset⟩ := rebuilt_drafts fun p hp => (hps p).mp hp
  have hleaf {q : Path} {c : Value} (hl : c.isLeaf = true) (hc : v.value.get? q = some c) :
      (v.rebuilt ps).value.get? q = some c :=
    (hset q ((hps q).mpr ⟨c, hc, hl⟩)).trans hc
  refine Document.ext (Value.eq_of_leaves (v.rebuilt ps).wellFormed v.wellFormed ?_)
  intro q c hl
  refine ⟨fun hc => ?_, hleaf hl⟩
  -- The document has the place, and there a leaf: below it the draft would have one, too.
  obtain ⟨w, hw⟩ := Option.isSome_iff_exists.mp (hdraft q (by rw [Value.has, hc]; rfl))
  cases hlw : w.isLeaf with
  | true => rw [hw, ← hc, hleaf hlw hw]
  | false =>
    obtain ⟨s, a, ha⟩ := Value.exists_child? hlw
    obtain ⟨r, b, hb, hlb⟩ := Value.exists_leafAt
      (Value.wellFormed_of_child? (Value.wellFormed_of_get? v.wellFormed hw) ha)
    have hbelow : v.value.get? (q ++ s :: r) = some b := by
      rw [Value.get?_append, hw, Option.bind_some, Value.get?_cons, ha, Option.bind_some, hb]
    have hnone := Value.get?_below_leaf hc hl s r
    rw [hleaf hlb hbelow] at hnone
    cases hnone

end Document

/-- **The leaves enumerate a document and rebuild it.**  Listed from any base they ascend by their
paths, without overlapping; they are the places at and below the base at which a scalar or an
empty container stands, and there is at least one.  Null, with the leaves set in it in any order,
is the document again. -/
theorem leaves_rebuild (v : Document) (base : Path) :
    v.value.leavesFrom base ≠ [] ∧
    ((v.value.leavesFrom base).Pairwise fun p q => p < q ∧ ¬ Path.overlaps p q = true) ∧
    (∀ q, q ∈ v.value.leavesFrom base ↔
      ∃ p w, q = base ++ p ∧ v.value.get? p = some w ∧ w.isLeaf = true) ∧
    ∀ ps : List Path, ps.Perm (v.value.leavesFrom Path.root) → v.rebuilt ps = v := by
  have hmem (q : Path) : q ∈ v.value.leavesFrom base ↔
      ∃ p w, q = base ++ p ∧ v.value.get? p = some w ∧ w.isLeaf = true := by
    simp only [Value.leavesFrom, List.mem_map, Value.mem_leaves_iff v.wellFormed, Value.LeafAt]
    constructor
    · rintro ⟨p, ⟨w, hw, hl⟩, rfl⟩
      exact ⟨p, w, rfl, hw, hl⟩
    · rintro ⟨p, w, rfl, hw, hl⟩
      exact ⟨p, ⟨w, hw, hl⟩, rfl⟩
  refine ⟨?_, ?_, hmem, fun ps hps => Document.rebuilt_eq fun p => ?_⟩
  · obtain ⟨p, hp⟩ := Value.exists_mem_leaves v.value v.wellFormed
    exact List.ne_nil_of_mem (List.mem_map_of_mem hp)
  · refine List.pairwise_map.mpr ((Value.leaves_precede v.wellFormed).imp fun hpq => ?_)
    exact ⟨(hpq.append_left base).lt, (hpq.append_left base).not_overlaps⟩
  · rw [hps.mem_iff, Value.leavesFrom, Path.root, ← Value.mem_leaves_iff v.wellFormed]
    simp

/-! ### A list that is set from its end -/

namespace Backwards

/-- The document `{"a": [1, {}], "b": null}`. -/
def document : Document :=
  ((Document.emptyMap.setScalar [.key "a", .index 0] (.int 1)).set [.key "a", .index 1]
    Document.emptyMap).setScalar [.key "b"] .null

/-- The last leaf comes first, and the second member of the list before the first one. -/
def paths : List Path := [[.key "b"], [.key "a", .index 1], [.key "a", .index 0]]

end Backwards

open Backwards in
theorem leaves_rebuild_backwards :
    paths.Perm (document.value.leavesFrom Path.root) ∧ document.rebuilt paths = document := by
  have hperm : paths.Perm (document.value.leavesFrom Path.root) :=
    List.reverse_perm (document.value.leavesFrom Path.root)
  exact ⟨hperm, (leaves_rebuild document Path.root).2.2.2 paths hperm⟩

end DocumentRules
