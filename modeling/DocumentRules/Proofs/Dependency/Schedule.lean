/-
The order in which the rules of a registry run.

* **`Registry.orderedRules_eq`** — the rules of a snapshot are the enabled rules at the
  positions in the order of its graph, although each is looked up by its id again;
* **`Registry.mem_orderedRules_iff`** — exactly the enabled rules run;
* **`Registry.orderedRules_pairwise`** — a rule that runs later does not feed one that has
  run, and the two are compatible.
-/
import DocumentRules.Proofs.Dependency.Search
import DocumentRules.Proofs.Registry.Index
import DocumentRules.Run.Snapshot

namespace DocumentRules

namespace Rule

variable {m : Type → Type} {r reader : Rule m}

theorem feeds_iff :
    r.feeds reader = true ↔
      ∃ w ∈ r.writes, ∃ p ∈ reader.reads, Path.overlaps w p = true := by
  simp [feeds, OrderedSet.mem_toList]

theorem not_feeds_iff :
    ¬ r.feeds reader = true ↔
      ∀ w ∈ r.writes, ∀ p ∈ reader.reads, ¬ Path.overlaps w p = true := by
  simp [feeds_iff]

end Rule

namespace Digraph

variable {α : Type} {related : α → α → Bool} {members : List α}

theorem size_ofRelation (related : α → α → Bool) (members : List α) :
    (ofRelation related members).size = members.length := by
  simp [size, ofRelation]

theorem next_ofRelation {i : Nat} {a : α} (ha : members[i]? = some a) :
    (ofRelation related members).next i =
      (members.zipIdx.filter fun (b, j) => i != j && related a b).map (·.2) := by
  simp [next, ofRelation, ha]

/-- The edges lead between different positions whose members are related. -/
theorem mem_next_ofRelation {i j : Nat} :
    j ∈ (ofRelation related members).next i ↔
      ∃ a b, members[i]? = some a ∧ members[j]? = some b ∧ i ≠ j ∧ related a b = true := by
  cases ha : members[i]? with
  | none => simp [next, ofRelation, ha]
  | some a =>
    rw [next_ofRelation ha]
    simp only [List.mem_map, List.mem_filter, List.mem_zipIdx_iff_getElem?, Prod.exists,
      Bool.and_eq_true, bne_iff_ne]
    constructor
    · rintro ⟨b, _, ⟨hb, hne, hrel⟩, rfl⟩
      exact ⟨a, b, rfl, hb, hne, hrel⟩
    · rintro ⟨_, b, ⟨⟩, hb, hne, hrel⟩
      exact ⟨b, j, ⟨hb, hne, hrel⟩, rfl⟩

theorem inRange_ofRelation (related : α → α → Bool) (members : List α) :
    (ofRelation related members).InRange := by
  intro i j hj
  obtain ⟨_, b, _, hb, _⟩ := mem_next_ofRelation.mp hj
  rw [size_ofRelation]
  exact (List.getElem?_eq_some_iff.mp hb).choose

end Digraph

variable {m : Type → Type}

theorem DependencyGraph.build_eq_ok {g : Registry m} {graph : DependencyGraph}
    (h : DependencyGraph.build g = .ok graph) :
    graph.ids = g.enabledRules.map (·.id) ∧
      graph.edges = Digraph.ofRelation Rule.feeds g.enabledRules ∧
      graph.edges.findCycle = none ∧ graph.edges.Emits [] graph.order := by
  unfold DependencyGraph.build at h
  simp only at h
  split at h
  · cases h
  · rename_i hnone
    cases h
    obtain ⟨order, horder, hemits⟩ :=
      Digraph.order?_emits (Digraph.inRange_ofRelation Rule.feeds g.enabledRules)
    refine ⟨rfl, rfl, hnone, ?_⟩
    rw [horder]
    exact hemits

/-- Where the search finds no cycle, the snapshot is there with the graph and its order. -/
theorem Snapshot.ofRegistry_of_findCycle {g : Registry m} {order : List Nat} (edges : Digraph)
    (hedges : Digraph.ofRelation Rule.feeds g.enabledRules = edges)
    (hnone : edges.findCycle = none) (horder : edges.order? = some order) :
    Snapshot.ofRegistry g = .ok ⟨g, ⟨g.enabledRules.map (·.id), edges, order⟩⟩ := by
  subst hedges
  simp only [Snapshot.ofRegistry, DependencyGraph.build, hnone, horder, Option.getD_some]

theorem Snapshot.ofRegistry_eq_ok {g : Registry m} {s : Snapshot m}
    (h : Snapshot.ofRegistry g = .ok s) :
    s.registry = g ∧ DependencyGraph.build g = .ok s.graph := by
  unfold Snapshot.ofRegistry at h
  split at h
  · rename_i graph hgraph
    cases h
    exact ⟨rfl, hgraph⟩
  · cases h

namespace Registry

variable {g : Registry m} {s : Snapshot m}

theorem mem_enabledRules {r : Rule m} : r ∈ g.enabledRules ↔ r ∈ g.rules ∧ r.enabled = true :=
  List.mem_filter

theorem orderedRules_eq (hg : g.rules.Pairwise Rule.Compatible)
    (hs : Snapshot.ofRegistry g = .ok s) :
    s.orderedRules = s.graph.order.filterMap (g.enabledRules[·]?) := by
  obtain ⟨hreg, hbuild⟩ := Snapshot.ofRegistry_eq_ok hs
  obtain ⟨hids, -, -, -⟩ := DependencyGraph.build_eq_ok hbuild
  rw [Snapshot.orderedRules, hreg, DependencyGraph.orderedIds, DependencyGraph.idsOf,
    List.filterMap_filterMap, hids]
  refine List.filterMap_congr ?_
  intro i _
  rw [List.getElem?_map]
  cases hr : g.enabledRules[i]? with
  | none => rfl
  | some r => exact get?_of_mem hg (mem_enabledRules.mp (List.mem_of_getElem? hr)).1

/-- **Exactly the enabled rules run.** -/
theorem mem_orderedRules_iff (hg : g.rules.Pairwise Rule.Compatible)
    (hs : Snapshot.ofRegistry g = .ok s) {r : Rule m} :
    r ∈ s.orderedRules ↔ r ∈ g.enabledRules := by
  obtain ⟨-, hedges, hnone, hemits⟩ :=
    DependencyGraph.build_eq_ok (Snapshot.ofRegistry_eq_ok hs).2
  rw [orderedRules_eq hg hs, List.mem_filterMap]
  constructor
  · rintro ⟨i, -, hi⟩
    exact List.mem_of_getElem? hi
  · intro hr
    obtain ⟨i, hi⟩ := List.getElem?_of_mem hr
    have hlt : i < s.graph.edges.size := by
      rw [hedges, Digraph.size_ofRelation]
      exact (List.getElem?_eq_some_iff.mp hi).choose
    have hrange : s.graph.edges.InRange := hedges ▸ Digraph.inRange_ofRelation _ _
    have hacyclic : s.graph.edges.Acyclic := Digraph.acyclic_of_findCycle hrange hnone
    exact ⟨i, hemits.mem_order hacyclic hlt List.not_mem_nil, hi⟩

/-- **A rule that runs later does not feed an earlier one**, and the two are compatible. -/
theorem orderedRules_pairwise (hg : g.rules.Pairwise Rule.Compatible)
    (hs : Snapshot.ofRegistry g = .ok s) :
    s.orderedRules.Pairwise fun r later => ¬ later.feeds r = true ∧ r.Compatible later := by
  obtain ⟨-, hedges, -, hemits⟩ :=
    DependencyGraph.build_eq_ok (Snapshot.ofRegistry_eq_ok hs).2
  rw [orderedRules_eq hg hs, List.pairwise_filterMap]
  refine (hemits.pairwise.and hemits.nodup).imp fun {i j} ⟨hedge, hne⟩ r hr t ht => ?_
  have hpair : g.enabledRules.Pairwise Rule.Compatible := hg.filter _
  constructor
  · -- It would be an edge from the later position to the earlier one.
    intro hfeeds
    refine hedge ?_
    rw [Digraph.hasEdge, List.contains_iff_mem, hedges]
    exact Digraph.mem_next_ofRelation.mpr ⟨t, r, ht, hr, hne.symm, hfeeds⟩
  · -- Compatibility is symmetric, whichever of the two comes first in the registry.
    obtain ⟨hi, rfl⟩ := List.getElem?_eq_some_iff.mp hr
    obtain ⟨hj, rfl⟩ := List.getElem?_eq_some_iff.mp ht
    rcases Nat.lt_or_gt_of_ne hne with hlt | hgt
    · exact List.pairwise_iff_getElem.mp hpair i j hi hj hlt
    · exact (List.pairwise_iff_getElem.mp hpair j i hj hi hgt).symm

end Registry

end DocumentRules
