/-
What a dependency graph tells of its edges.

The graph holds its edges once, by positions; it is asked by ids, for one edge, for all rules that
depend on one, and for all that one depends on.  An id stands at one position, so the three
questions are about the same relation of the rules, `Registry.Feeds`:

* **`DependencyGraph.hasEdge_iff`** — one edge;
* **`DependencyGraph.dependents_eq`**, **`DependencyGraph.dependencies_eq`** — both lists are the
  enabled rules, in the order of the registry, of which the one edge is told;
* **`graph_queries_agree`** — so the answers agree with each other, with the declarations, and with
  the order in which the rules run.
-/
import DocumentRules.Proofs.Dependency.LeastOrder

namespace DocumentRules

variable {m : Type → Type}

namespace Digraph

variable {α : Type} {related : α → α → Bool} {members : List α}

/-- The successors of a position are listed in ascending order. -/
theorem next_ofRelation_ascending (i : Nat) :
    ((ofRelation related members).next i).Pairwise (· < ·) := by
  cases ha : members[i]? with
  | none => simp [next, ofRelation, ha]
  | some a =>
    have hpositions : members.zipIdx.map (·.2) = List.range members.length := by
      rw [List.zipIdx_map_snd, List.range_eq_range']
    rw [next_ofRelation ha]
    exact List.pairwise_lt_range.sublist (hpositions ▸ List.filter_sublist.map _)

/-- The successors of a position are the positions that it has an edge to. -/
theorem next_ofRelation_eq_filter (i : Nat) :
    (ofRelation related members).next i =
      (List.range members.length).filter ((ofRelation related members).hasEdge i ·) := by
  refine OrderedSet.eq_of_ascending (next_ofRelation_ascending i)
    (List.pairwise_lt_range.filter _) fun j => ?_
  rw [List.mem_filter, List.mem_range, hasEdge, List.contains_iff_mem]
  constructor
  · intro hj
    exact ⟨size_ofRelation related members ▸ inRange_ofRelation related members i j hj, hj⟩
  · intro h
    exact h.2

end Digraph

namespace DependencyGraph

/-- Positions whose rules have a property are named by the ids of these rules, in their order. -/
theorem idsOf_filter_range {rules : List (Rule m)} {p : Nat → Bool} {q : Rule m → Bool}
    (h : ∀ i r, rules[i]? = some r → p i = q r) :
    idsOf (rules.map (·.id)) ((List.range rules.length).filter p) =
      (rules.filter q).map (·.id) := by
  have hpositions : (List.range rules.length).filter p =
      (rules.zipIdx.filter fun e => q e.1).map (·.2) := by
    rw [List.range_eq_range', ← List.zipIdx_map_snd, List.filter_map]
    refine congrArg (List.map _) (List.filter_congr fun e he => ?_)
    exact h e.2 e.1 (List.mem_zipIdx_iff_getElem?.mp he)
  have hrules : rules.filter q = (rules.zipIdx.filter fun e => q e.1).map (·.1) := by
    conv_lhs => rw [← List.zipIdx_map_fst 0 rules, List.filter_map]
    rfl
  rw [idsOf, hpositions, hrules, List.filterMap_map, List.map_map]
  refine (List.filterMap_congr fun e he => ?_).trans (congrFun List.filterMap_eq_map _)
  have hat : rules[e.2]? = some e.1 := List.mem_zipIdx_iff_getElem?.mp (List.mem_filter.mp he).1
  show (rules.map (·.id))[e.2]? = some e.1.id
  rw [List.getElem?_map, hat, Option.map_some]

variable {g : Registry m} {graph : DependencyGraph} {a b : String}

/-! ### One edge -/

/-- A position is found under the id of the enabled rule that stands there. -/
theorem node?_eq_some_iff (hg : g.rules.Pairwise Rule.Compatible) (h : build g = .ok graph)
    {id : String} {i : Nat} :
    graph.node? id = some i ↔ ∃ r, g.enabledRules[i]? = some r ∧ r.id = id := by
  obtain ⟨hids, -, -, -⟩ := build_eq_ok h
  rw [node?, hids, Entries.find?_positions_of_nodup (Registry.ids_nodup hg), List.getElem?_map,
    Option.map_eq_some_iff]

/-- **One edge**: the graph tells of an edge exactly if the rule with the first id feeds the one
with the second id. -/
theorem hasEdge_iff (hg : g.rules.Pairwise Rule.Compatible) (h : build g = .ok graph) :
    graph.hasEdge a b = true ↔
      ∃ w r, g.get? a = some w ∧ g.get? b = some r ∧ g.Feeds w r := by
  obtain ⟨-, hedges, -, -⟩ := build_eq_ok h
  constructor
  · intro hedge
    unfold hasEdge at hedge
    split at hedge
    · rename_i i j hi hj
      obtain ⟨w, hw, rfl⟩ := (node?_eq_some_iff hg h).mp hi
      obtain ⟨r, hr, rfl⟩ := (node?_eq_some_iff hg h).mp hj
      rw [hedges, Digraph.hasEdge, List.contains_iff_mem] at hedge
      have hfeeds : g.Feeds w r := (Registry.edge_iff_feeds hg hw hr).mp hedge
      have hmem {s : Rule m} (hs : s ∈ g.enabledRules) : g.get? s.id = some s :=
        Registry.get?_of_mem hg (Registry.mem_enabledRules.mp hs).1
      exact ⟨w, r, hmem hfeeds.writer, hmem hfeeds.reader, hfeeds⟩
    · cases hedge
  · rintro ⟨w, r, hw, hr, hfeeds⟩
    obtain ⟨i, hi⟩ := List.getElem?_of_mem hfeeds.writer
    obtain ⟨j, hj⟩ := List.getElem?_of_mem hfeeds.reader
    obtain ⟨-, rfl⟩ := (Registry.get?_eq_some_iff hg).mp hw
    obtain ⟨-, rfl⟩ := (Registry.get?_eq_some_iff hg).mp hr
    rw [hasEdge, (node?_eq_some_iff hg h).mpr ⟨w, hi, rfl⟩,
      (node?_eq_some_iff hg h).mpr ⟨r, hj, rfl⟩]
    show graph.edges.hasEdge i j = true
    rw [hedges, Digraph.hasEdge, List.contains_iff_mem]
    exact (Registry.edge_iff_feeds hg hi hj).mpr hfeeds

/-! ### All edges of one rule -/

/-- Without a position for an id there is no edge at it. -/
theorem hasEdge_of_node?_eq_none (h : graph.node? a = none) :
    graph.hasEdge a b = false ∧ graph.hasEdge b a = false := by
  constructor
  · rw [hasEdge, h]
  · rw [hasEdge, h]
    cases graph.node? b <;> rfl

/-- **The dependents of a rule** are the enabled rules that it has an edge to, in the order of the
registry. -/
theorem dependents_eq (hg : g.rules.Pairwise Rule.Compatible) (h : build g = .ok graph)
    (id : String) :
    graph.dependents id = (g.enabledRules.filter fun r => graph.hasEdge id r.id).map (·.id) := by
  obtain ⟨hids, hedges, -, -⟩ := build_eq_ok h
  rw [dependents]
  cases hi : graph.node? id with
  | none => simp [(hasEdge_of_node?_eq_none hi).1]
  | some i =>
    simp only [hids, hedges, Digraph.next_ofRelation_eq_filter]
    refine idsOf_filter_range fun j r hr => ?_
    rw [hasEdge, hi, (node?_eq_some_iff hg h).mpr ⟨r, hr, rfl⟩, hedges]

/-- **The dependencies of a rule** are the enabled rules that have an edge to it, in the order of
the registry. -/
theorem dependencies_eq (hg : g.rules.Pairwise Rule.Compatible) (h : build g = .ok graph)
    (id : String) :
    graph.dependencies id =
      (g.enabledRules.filter fun w => graph.hasEdge w.id id).map (·.id) := by
  obtain ⟨hids, hedges, -, -⟩ := build_eq_ok h
  rw [dependencies]
  cases hj : graph.node? id with
  | none => simp [(hasEdge_of_node?_eq_none hj).2]
  | some j =>
    simp only [hids, hedges, Digraph.size_ofRelation]
    refine idsOf_filter_range fun i w hw => ?_
    rw [hasEdge, (node?_eq_some_iff hg h).mpr ⟨w, hw, rfl⟩, hj, hedges]

/-- An edge joins ids of enabled rules. -/
theorem exists_enabled_of_hasEdge (hg : g.rules.Pairwise Rule.Compatible)
    (h : build g = .ok graph) (hedge : graph.hasEdge a b = true) :
    (∃ w ∈ g.enabledRules, w.id = a) ∧ ∃ r ∈ g.enabledRules, r.id = b := by
  obtain ⟨w, r, hw, hr, hfeeds⟩ := (hasEdge_iff hg h).mp hedge
  exact ⟨⟨w, hfeeds.writer, ((Registry.get?_eq_some_iff hg).mp hw).2⟩,
    ⟨r, hfeeds.reader, ((Registry.get?_eq_some_iff hg).mp hr).2⟩⟩

theorem mem_dependents_iff (hg : g.rules.Pairwise Rule.Compatible) (h : build g = .ok graph) :
    b ∈ graph.dependents a ↔ graph.hasEdge a b = true := by
  rw [dependents_eq hg h, List.mem_map]
  constructor
  · rintro ⟨r, hr, rfl⟩
    exact (List.mem_filter.mp hr).2
  · intro hedge
    obtain ⟨-, r, hr, rfl⟩ := exists_enabled_of_hasEdge hg h hedge
    exact ⟨r, List.mem_filter.mpr ⟨hr, hedge⟩, rfl⟩

theorem mem_dependencies_iff (hg : g.rules.Pairwise Rule.Compatible) (h : build g = .ok graph) :
    a ∈ graph.dependencies b ↔ graph.hasEdge a b = true := by
  rw [dependencies_eq hg h, List.mem_map]
  constructor
  · rintro ⟨w, hw, rfl⟩
    exact (List.mem_filter.mp hw).2
  · intro hedge
    obtain ⟨⟨w, hw, rfl⟩, -⟩ := exists_enabled_of_hasEdge hg h hedge
    exact ⟨w, List.mem_filter.mpr ⟨hw, hedge⟩, rfl⟩

/-- The ids are those of enabled rules in ascending order of names and ids, each once. -/
structure Listed (g : Registry m) (ids : List String) : Prop where
  nodup : ids.Nodup
  ascending : ∃ rules : List (Rule m), rules.Sublist g.enabledRules ∧
    rules.Pairwise Rule.Before ∧ ids = rules.map (·.id)

/-- The enabled rules with some property are listed in order. -/
theorem listed_filter (hg : g.Reachable) (q : Rule m → Bool) :
    Listed g ((g.enabledRules.filter q).map (·.id)) where
  nodup := (List.filter_sublist.map _).nodup (Registry.ids_nodup hg.compatible)
  ascending := ⟨_, List.filter_sublist, (hg.ascending.filter _).filter q, rfl⟩

/-! ### The edges and the order -/

/-- The rule at the start of an edge runs before the one at its end. -/
theorem precedes_of_hasEdge (hg : g.Reachable) (h : build g = .ok graph)
    (hedge : graph.hasEdge a b = true) : [a, b].Sublist graph.orderedIds := by
  obtain ⟨w, r, hw, hr, hfeeds⟩ := (hasEdge_iff hg.compatible h).mp hedge
  obtain ⟨-, rfl⟩ := (Registry.get?_eq_some_iff hg.compatible).mp hw
  obtain ⟨-, rfl⟩ := (Registry.get?_eq_some_iff hg.compatible).mp hr
  have hs : Snapshot.ofRegistry g = .ok ⟨g, graph⟩ := by rw [Snapshot.ofRegistry, h]
  rw [Registry.orderedIds_eq hg.compatible hs]
  exact ((Registry.orderedRules_isSchedule hg hs).writers_first w r hfeeds).map (·.id)

end DependencyGraph

/-- **The queries of a graph agree.**  Of two ids, whatever rules they name or do not name, the
graph tells of an edge exactly if it lists the second one among the dependents of the first, and
exactly if it lists the first one among the dependencies of the second; that is so exactly if the
ids name different enabled rules, and some declared write of the first covers, or is covered by,
some declared read of the second; and then the first one runs before the second.  Dependents and
dependencies are listed without repetition, in ascending order of names and ids. -/
theorem graph_queries_agree {g : Registry m} {graph : DependencyGraph} (hg : g.Reachable)
    (h : DependencyGraph.build g = .ok graph) :
    (∀ a b,
      (graph.hasEdge a b = true ↔ b ∈ graph.dependents a) ∧
      (graph.hasEdge a b = true ↔ a ∈ graph.dependencies b) ∧
      (graph.hasEdge a b = true ↔
        ∃ w r, g.get? a = some w ∧ g.get? b = some r ∧ g.Feeds w r) ∧
      (graph.hasEdge a b = true → [a, b].Sublist graph.orderedIds)) ∧
    ∀ id, DependencyGraph.Listed g (graph.dependents id) ∧
      DependencyGraph.Listed g (graph.dependencies id) := by
  constructor
  · intro a b
    exact ⟨(DependencyGraph.mem_dependents_iff hg.compatible h).symm,
      (DependencyGraph.mem_dependencies_iff hg.compatible h).symm,
      DependencyGraph.hasEdge_iff hg.compatible h,
      DependencyGraph.precedes_of_hasEdge hg h⟩
  · intro id
    rw [DependencyGraph.dependents_eq hg.compatible h,
      DependencyGraph.dependencies_eq hg.compatible h]
    exact ⟨DependencyGraph.listed_filter hg _, DependencyGraph.listed_filter hg _⟩

open Fed in
/-- The rule `b` feeds `a` and runs before it; an id that no rule has names no edge. -/
theorem graph_queries_agree_fed :
    snapshot.graph.hasEdge "b" "a" = true ∧ "a" ∈ snapshot.graph.dependents "b" ∧
      "b" ∈ snapshot.graph.dependencies "a" ∧ ["b", "a"].Sublist snapshot.graph.orderedIds ∧
      "d" ∉ snapshot.graph.dependents "b" := by
  have hgraph := (Snapshot.ofRegistry_eq_ok ofRegistry_eq).2
  have hagree := (graph_queries_agree reachable hgraph).1
  have hedge : snapshot.graph.hasEdge "b" "a" = true := by decide
  obtain ⟨hdependents, hdependencies, -, horder⟩ := hagree "b" "a"
  refine ⟨hedge, hdependents.mp hedge, hdependencies.mp hedge, horder hedge, ?_⟩
  rw [← (hagree "b" "d").1]
  decide

end DocumentRules
