/-
The order of a graph as a sequence of emissions.

A node is free if all its predecessors have been emitted.  `Emits` says which nodes are
emitted from a stage on, in terms of the edges alone: always the smallest free one, until
no node is free.

* **`Pending.Tracks.releaseAll`** — emitting a node keeps the counters and the ready nodes
  those of the stage, and no counter falls below zero;
* **`order?_emits`** — the order of a graph is a sequence of emissions from its first stage;
* **`Emits.nodup`**, **`Emits.pairwise`** — no node is emitted twice, and no node is
  emitted in front of one of its predecessors.
-/
import DocumentRules.Dependency.Graph
import Mathlib.Data.List.Nodup

namespace DocumentRules.Digraph

/-- All edges lead to nodes. -/
def InRange (g : Digraph) : Prop := ∀ i, ∀ j ∈ g.next i, j < g.size

/-- All predecessors of the node have been emitted. -/
def Free (g : Digraph) (done : List Nat) (j : Nat) : Prop :=
  ∀ i < g.size, j ∈ g.next i → i ∈ done

/-- The nodes that are emitted after these. -/
inductive Emits (g : Digraph) : List Nat → List Nat → Prop where
  /-- No node is free. -/
  | stop {done : List Nat} (stuck : ∀ j < g.size, j ∉ done → ¬ g.Free done j) : Emits g done []
  /-- The smallest free node comes next. -/
  | next {done order : List Nat} {node : Nat} (lt : node < g.size) (fresh : node ∉ done)
      (free : g.Free done node)
      (least : ∀ j < g.size, j ∉ done → g.Free done j → node ≤ j)
      (rest : Emits g (node :: done) order) : Emits g done (node :: order)

namespace Emits

variable {g : Digraph} {done order : List Nat}

theorem not_mem_done (h : Emits g done order) : ∀ j ∈ order, j ∉ done := by
  induction h with
  | stop => simp
  | next _ fresh _ _ _ ih =>
    intro j hj
    rcases List.mem_cons.mp hj with rfl | hj
    · exact fresh
    · intro hd
      exact ih j hj (List.mem_cons_of_mem _ hd)

theorem nodup (h : Emits g done order) : order.Nodup := by
  induction h with
  | stop => exact List.nodup_nil
  | next _ _ _ _ rest ih =>
    exact List.nodup_cons.mpr ⟨fun hm => rest.not_mem_done _ hm (List.mem_cons_self ..), ih⟩

theorem lt_size (h : Emits g done order) : ∀ j ∈ order, j < g.size := by
  induction h with
  | stop => simp
  | next lt _ _ _ _ ih =>
    intro j hj
    rcases List.mem_cons.mp hj with rfl | hj
    · exact lt
    · exact ih j hj

/-- No node is emitted in front of one of its predecessors. -/
theorem pairwise (h : Emits g done order) :
    order.Pairwise fun i j => ¬ g.hasEdge j i = true := by
  induction h with
  | stop => exact List.Pairwise.nil
  | @next done order node lt fresh free least rest ih =>
    refine List.pairwise_cons.mpr ⟨fun j hj he => ?_, ih⟩
    -- A predecessor of a free node has been emitted, and no node is emitted twice.
    have hdone : j ∈ done := free j (rest.lt_size j hj) (by simpa [hasEdge] using he)
    exact rest.not_mem_done j hj (List.mem_cons_of_mem _ hdone)

end Emits

/-! ### The counters -/

/-- The number of edges to a node from nodes that have not been emitted. -/
def waiting (g : Digraph) (done : List Nat) (j : Nat) : Nat :=
  (((List.range g.size).filter (· ∉ done)).flatMap g.next).count j

theorem waiting_eq_zero_iff {g : Digraph} {done : List Nat} {j : Nat} :
    g.waiting done j = 0 ↔ g.Free done j := by
  simp only [waiting, List.count_eq_zero, List.mem_flatMap, List.mem_filter, List.mem_range,
    decide_eq_true_eq, Free]
  constructor
  · intro h i hi hj
    by_contra hd
    exact h ⟨i, ⟨hi, hd⟩, hj⟩
  · rintro h ⟨i, ⟨hi, hd⟩, hj⟩
    exact hd (h i hi hj)

/-- Emitting a node takes its edges away. -/
theorem waiting_cons {g : Digraph} {done : List Nat} {node : Nat} (hlt : node < g.size)
    (hfresh : node ∉ done) (j : Nat) :
    g.waiting done j = g.waiting (node :: done) j + (g.next node).count j := by
  -- The nodes left before are the node itself and those left after it.
  have hperm : ((List.range g.size).filter (· ∉ done)).Perm
      (node :: (List.range g.size).filter (· ∉ node :: done)) := by
    refine (List.perm_ext_iff_of_nodup (List.nodup_range.filter _) ?_).mpr fun i => ?_
    · exact List.nodup_cons.mpr ⟨by simp, List.nodup_range.filter _⟩
    · by_cases hi : i = node
      · simp [hi, hlt, hfresh]
      · simp [hi]
  rw [waiting, (hperm.flatMap_right g.next).count_eq, List.flatMap_cons, List.count_append,
    Nat.add_comm]
  rfl

namespace Pending

/-- Releasing takes one edge from the counter of the node, which is ready once it waits for
none. -/
theorem release_eq_some {p : Pending} {j n : Nat} (h : p.counters[j]? = some (n + 1)) :
    p.release j =
      some ⟨p.counters.set j n, if n = 0 then p.ready.insert j else p.ready⟩ := by
  rw [release, h]

/-- Releasing nodes whose counters are large enough never fails; the counters fall by the
numbers of their edges, and the nodes whose counters fall to zero become ready. -/
theorem releaseAll_eq_some {p : Pending} {js : List Nat}
    (h : ∀ j ∈ js, ∃ c, p.counters[j]? = some c ∧ js.count j ≤ c) :
    ∃ r, p.releaseAll js = some r ∧
      (∀ j, r.counters[j]? = p.counters[j]?.map (· - js.count j)) ∧
      (∀ j, j ∈ r.ready ↔ j ∈ p.ready ∨ (j ∈ js ∧ p.counters[j]? = some (js.count j))) := by
  induction js generalizing p with
  | nil => exact ⟨p, rfl, by simp, by simp⟩
  | cons k js ih =>
    obtain ⟨c, hc, hle⟩ := h k (List.mem_cons_self ..)
    rw [List.count_cons_self] at hle
    obtain ⟨n, rfl⟩ : ∃ n, c = n + 1 := ⟨c - 1, by omega⟩
    have hlt : k < p.counters.length := (List.getElem?_eq_some_iff.mp hc).choose
    have hset (j : Nat) : (p.counters.set k n)[j]? =
        if k = j then some n else p.counters[j]? := List.getElem?_set_of_lt' _ _ hlt
    obtain ⟨r, hr, hcount, hready⟩ := ih
      (p := ⟨p.counters.set k n, if n = 0 then p.ready.insert k else p.ready⟩) fun j hj => by
        rw [hset]
        by_cases hkj : k = j
        · subst hkj
          exact ⟨n, by simp, by omega⟩
        · obtain ⟨d, hd, hle'⟩ := h j (List.mem_cons_of_mem _ hj)
          rw [List.count_cons_of_ne hkj] at hle'
          exact ⟨d, by simp [hkj, hd], hle'⟩
    refine ⟨r, ?_, fun j => ?_, fun j => ?_⟩
    · rw [releaseAll, release_eq_some hc]
      exact hr
    · rw [hcount, hset]
      by_cases hkj : k = j
      · subst hkj
        simp only [↓reduceIte, Option.map_some, hc, List.count_cons_self]
        congr 1
        omega
      · simp [hkj, List.count_cons_of_ne hkj]
    · rw [hready, hset]
      by_cases hkj : k = j
      · subst hkj
        simp only [hc, List.count_cons_self, ↓reduceIte, List.mem_cons, true_or, true_and,
          Option.some.injEq, Nat.add_right_cancel_iff]
        by_cases hn : n = 0
        · -- The last edge: the node becomes ready now and has none left in the rest.
          subst hn
          have hzero : js.count k = 0 := by omega
          simp [hzero]
        · -- It waits for more edges, which the rest may take away.
          have hmem : n = js.count k → k ∈ js := fun he =>
            List.count_pos_iff.mp (by omega)
          simp only [hn, ↓reduceIte]
          constructor
          · rintro (hp | ⟨_, he⟩)
            · exact Or.inl hp
            · exact Or.inr he
          · rintro (hp | he)
            · exact Or.inl hp
            · exact Or.inr ⟨hmem he, he⟩
      · have hjk : ¬ j = k := fun e => hkj e.symm
        by_cases hn : n = 0 <;> simp [hn, hkj, hjk, List.count_cons_of_ne hkj]

/-- The counters and the ready nodes are those of the stage at which these nodes have been
emitted. -/
structure Tracks (g : Digraph) (done : List Nat) (p : Pending) : Prop where
  counters : ∀ j, p.counters[j]? = if j < g.size then some (g.waiting done j) else none
  ready : ∀ j, j ∈ p.ready ↔ j < g.size ∧ j ∉ done ∧ g.Free done j
  emitted : ∀ j ∈ done, g.Free done j

/-- What is left when the smallest ready node has been taken. -/
theorem pop?_eq_some {p q : Pending} {node : Nat} (h : p.pop? = some (node, q)) :
    q.counters = p.counters ∧ node ∈ p.ready ∧ (∀ j ∈ p.ready, node ≤ j) ∧
      ∀ j, j ∈ q.ready ↔ j ∈ p.ready ∧ j ≠ node := by
  unfold pop? at h
  split at h
  · cases h
  · rename_i first rest hr
    cases h
    have hpair : (node :: rest).Pairwise (· < ·) := hr ▸ p.ready.ascending
    have hlt := (List.pairwise_cons.mp hpair).1
    have hmem (j : Nat) : j ∈ p.ready ↔ j = node ∨ j ∈ rest := by
      rw [← OrderedSet.mem_toList, hr, List.mem_cons]
    refine ⟨rfl, (hmem node).mpr (Or.inl rfl), fun j hj => ?_, fun j => ?_⟩
    · rcases (hmem j).mp hj with rfl | hj
      · exact Nat.le_refl _
      · exact Nat.le_of_lt (hlt j hj)
    · rw [hmem]
      constructor
      · intro hj
        exact ⟨Or.inr hj, fun e => Nat.lt_irrefl node (e ▸ hlt j hj)⟩
      · rintro ⟨rfl | hj, hne⟩
        · exact absurd rfl hne
        · exact hj

theorem pop?_eq_none {p : Pending} (h : p.pop? = none) (j : Nat) : j ∉ p.ready := by
  unfold pop? at h
  split at h
  · rename_i hr
    rw [← OrderedSet.mem_toList, hr]
    exact List.not_mem_nil
  · cases h

end Pending

theorem Free.mono {g : Digraph} {done : List Nat} {j : Nat} (h : g.Free done j) (node : Nat) :
    g.Free (node :: done) j :=
  fun i hi hj => List.mem_cons_of_mem _ (h i hi hj)

namespace Pending.Tracks

variable {g : Digraph} {done : List Nat} {p q : Pending} {node : Nat}

theorem node_free (hp : p.Tracks g done) (h : p.pop? = some (node, q)) :
    node < g.size ∧ node ∉ done ∧ g.Free done node ∧
      ∀ j < g.size, j ∉ done → g.Free done j → node ≤ j := by
  obtain ⟨_, hmem, hleast, _⟩ := pop?_eq_some h
  obtain ⟨hlt, hfresh, hfree⟩ := (hp.ready node).mp hmem
  exact ⟨hlt, hfresh, hfree, fun j hj hd hf => hleast j ((hp.ready j).mpr ⟨hj, hd, hf⟩)⟩

/-- **Emitting a node**: no counter falls below zero, and the next stage is tracked. -/
theorem releaseAll (hg : g.InRange) (hp : p.Tracks g done) (h : p.pop? = some (node, q)) :
    ∃ r, q.releaseAll (g.next node) = some r ∧ r.Tracks g (node :: done) := by
  obtain ⟨hlt, hfresh, hfree, _⟩ := hp.node_free h
  obtain ⟨hcount, _, _, hready⟩ := pop?_eq_some h
  have hwait := waiting_cons hlt hfresh
  -- The counters are as they were, for taking a node leaves them alone.
  have hin (j : Nat) (hj : j ∈ g.next node) : q.counters[j]? = some (g.waiting done j) := by
    rw [hcount, hp.counters, if_pos (hg node j hj)]
  obtain ⟨r, hr, hrcount, hrready⟩ := @releaseAll_eq_some q (g.next node)
    fun j hj => ⟨_, hin j hj, by rw [hwait j]; exact Nat.le_add_left ..⟩
  refine ⟨r, hr, fun j => ?_, fun j => ?_, fun j hj => ?_⟩
  · rw [hrcount, hcount, hp.counters]
    by_cases hj : j < g.size
    · rw [if_pos hj, if_pos hj, Option.map_some, hwait j, Nat.add_sub_cancel]
    · rw [if_neg hj, if_neg hj, Option.map_none]
  · rw [hrready, hready, hp.ready]
    constructor
    · rintro (⟨⟨hj, hd, hf⟩, hne⟩ | ⟨hj, hc⟩)
      · exact ⟨hj, by simp [hne, hd], hf.mono node⟩
      · rw [hin j hj, Option.some.injEq] at hc
        have hpos : 0 < (g.next node).count j := List.count_pos_iff.mpr hj
        have hzero : g.waiting (node :: done) j = 0 := by
          have := hwait j
          omega
        -- A node that was free before waited for no edge, so it cannot become ready now.
        have hnot : ¬ g.Free done j := fun hf => by
          have := waiting_eq_zero_iff.mpr hf
          omega
        refine ⟨hg node j hj, fun hm => hnot ?_, waiting_eq_zero_iff.mp hzero⟩
        rcases List.mem_cons.mp hm with rfl | hm
        · exact hfree
        · exact hp.emitted j hm
    · rintro ⟨hj, hm, hf⟩
      have hzero := waiting_eq_zero_iff.mpr hf
      have hsum := hwait j
      rw [List.mem_cons, not_or] at hm
      by_cases hnext : j ∈ g.next node
      · refine Or.inr ⟨hnext, ?_⟩
        rw [hin j hnext]
        congr 1
        omega
      · rw [List.count_eq_zero.mpr hnext] at hsum
        exact Or.inl ⟨⟨hj, hm.2, waiting_eq_zero_iff.mp (by omega)⟩, hm.1⟩
  · rcases List.mem_cons.mp hj with rfl | hj
    · exact hfree.mono j
    · exact (hp.emitted j hj).mono node

end Pending.Tracks

/-! ### The whole order -/

theorem emit_of_pop?_eq_none {g : Digraph} {p : Pending} (h : p.pop? = none) :
    g.emit p = some [] := by
  unfold emit
  split
  · rfl
  · rename_i h'
    rw [h] at h'
    cases h'

theorem emit_of_pop?_eq_some {g : Digraph} {p q r : Pending} {node : Nat}
    (h : p.pop? = some (node, q)) (hr : q.releaseAll (g.next node) = some r) :
    g.emit p = (g.emit r).map (node :: ·) := by
  rw [emit]
  split
  · rename_i h'
    rw [h] at h'
    cases h'
  · rename_i h'
    rw [h] at h'
    cases h'
    split
    · rename_i hr'
      rw [hr] at hr'
      cases hr'
      rfl
    · rename_i hr'
      rw [hr] at hr'
      cases hr'

/-- From a stage that is tracked the emission never fails. -/
theorem emit_emits {g : Digraph} (hg : g.InRange) {done : List Nat} {p : Pending}
    (hp : p.Tracks g done) : ∃ order, g.emit p = some order ∧ g.Emits done order := by
  -- Every emission leaves fewer edges and ready nodes, as in the definition of `emit`.
  induction hn : p.outstanding using Nat.strongRecOn generalizing p done with
  | _ n ih =>
    cases h : p.pop? with
    | none =>
      refine ⟨[], emit_of_pop?_eq_none h, .stop fun j hj hd hf => ?_⟩
      exact Pending.pop?_eq_none h j ((hp.ready j).mpr ⟨hj, hd, hf⟩)
    | some popped =>
      obtain ⟨node, q⟩ := popped
      obtain ⟨hlt, hfresh, hfree, hleast⟩ := hp.node_free h
      obtain ⟨r, hr, htracks⟩ := hp.releaseAll hg h
      have hless : r.outstanding < n := hn ▸ Nat.lt_of_le_of_lt
        (Pending.outstanding_releaseAll hr) (Pending.outstanding_pop? h)
      obtain ⟨order, horder, hemits⟩ := ih _ hless htracks rfl
      refine ⟨node :: order, ?_, .next hlt hfresh hfree hleast hemits⟩
      rw [emit_of_pop?_eq_some h hr, horder]
      rfl

theorem inDegree_eq_waiting (g : Digraph) (j : Nat) : g.inDegree j = g.waiting [] j := by
  have hall : (List.range g.size).flatMap g.next = g.successors.flatten := by
    rw [← List.flatMap_id', List.flatMap_def, List.flatMap_def]
    congr 1
    apply List.ext_getElem
    · simp [size]
    · intro i hi _
      simp only [List.length_map, List.length_range] at hi
      simp [next, List.getElem?_eq_getElem (show i < g.successors.length from hi)]
  rw [waiting, List.filter_eq_self.mpr (by simp), hall, inDegree]

theorem pending_tracks (g : Digraph) : g.pending.Tracks g [] where
  counters j := by
    by_cases hj : j < g.size
    · simp [pending, hj, inDegree_eq_waiting]
    · simp [pending, hj]
  ready j := by
    simp [pending, inDegree_eq_waiting, waiting_eq_zero_iff]
  emitted := by simp

/-- **The order of a graph**: it is always found, and every node in it is the smallest of
those that are free when it is emitted. -/
theorem order?_emits {g : Digraph} (hg : g.InRange) :
    ∃ order, g.order? = some order ∧ g.Emits [] order :=
  emit_emits hg g.pending_tracks

end DocumentRules.Digraph
