/-
Rules that depend on each other in a circle.

The graph of a registry has positions for its nodes; here its edges and cycles are those of
the rules themselves.

* **`Registry.edge_iff_feeds`** — an edge between two positions says that the rule at one
  feeds the other;
* **`DependencyGraph.isCircle_of_build`** — a graph that cannot be built names rules that depend on
  each other in a circle;
* **`cycle_detection`** — it cannot be built exactly if there are such rules, and the search
  behind it always ends, never strays and misses no cycle.
-/
import DocumentRules.Proofs.Dependency.Moves
import DocumentRules.Proofs.Dependency.Schedule

namespace DocumentRules

variable {m : Type → Type}

namespace Registry

variable {g : Registry m}

/-- The two are different enabled rules, and some write of the first one overlaps some read of
the second one. -/
structure Feeds (g : Registry m) (r s : Rule m) : Prop where
  writer : r ∈ g.enabledRules
  reader : s ∈ g.enabledRules
  ne : r ≠ s
  overlap : ∃ w ∈ r.writes, ∃ p ∈ s.reads, Path.overlaps w p = true

/-- At least two rules, each of which feeds the next one, and the last one the first. -/
structure IsCircle (g : Registry m) (rules : List (Rule m)) : Prop where
  ids : (rules.map (·.id)).Nodup
  two_le_length : 2 ≤ rules.length
  chain : rules.IsChain g.Feeds
  closed : ∃ first last, rules.head? = some first ∧ rules.getLast? = some last ∧
    g.Feeds last first

theorem IsCircle.transGen {rules : List (Rule m)} (h : g.IsCircle rules) :
    ∃ r, Relation.TransGen g.Feeds r r := by
  obtain ⟨first, last, hfirst, hlast, hclosed⟩ := h.closed
  exact ⟨last, Digraph.transGen_of_closed h.chain hfirst hlast hclosed⟩

/-- The edges between the positions of the enabled rules. -/
abbrev edges (g : Registry m) : Digraph := Digraph.ofRelation Rule.feeds g.enabledRules

theorem ids_nodup (hg : g.rules.Pairwise Rule.Compatible) :
    (g.enabledRules.map (·.id)).Nodup :=
  List.pairwise_map.mpr ((hg.filter _).imp fun hrs => hrs.ids)

/-- **An edge between two positions** says that the rule at one feeds the rule at the other. -/
theorem edge_iff_feeds (hg : g.rules.Pairwise Rule.Compatible) {i j : Nat} {r s : Rule m}
    (hr : g.enabledRules[i]? = some r) (hs : g.enabledRules[j]? = some s) :
    g.edges.Edge i j ↔ g.Feeds r s := by
  have hnodup : g.enabledRules.Nodup := (ids_nodup hg).of_map
  have hlt : i < g.enabledRules.length := (List.getElem?_eq_some_iff.mp hr).choose
  have hne : i ≠ j ↔ r ≠ s := by
    rw [not_iff_not, ← List.getElem?_inj hlt hnodup, hr, hs, Option.some.injEq]
  rw [Digraph.Edge, Digraph.mem_next_ofRelation]
  constructor
  · rintro ⟨a, b, ha, hb, hij, hfeeds⟩
    rw [hr, Option.some.injEq] at ha
    rw [hs, Option.some.injEq] at hb
    subst ha hb
    exact ⟨List.mem_of_getElem? hr, List.mem_of_getElem? hs, hne.mp hij,
      Rule.feeds_iff.mp hfeeds⟩
  · intro h
    exact ⟨r, s, hr, hs, hne.mpr h.ne, Rule.feeds_iff.mpr h.overlap⟩

/-- A path of rules that feed each other is a path of edges between their positions. -/
theorem exists_path_of_feeds (hg : g.rules.Pairwise Rule.Compatible) {r s : Rule m}
    (h : Relation.TransGen g.Feeds r s) :
    ∃ i j, g.enabledRules[i]? = some r ∧ g.enabledRules[j]? = some s ∧
      Relation.TransGen g.edges.Edge i j := by
  induction h with
  | single hrs =>
    obtain ⟨i, hi⟩ := List.getElem?_of_mem hrs.writer
    obtain ⟨j, hj⟩ := List.getElem?_of_mem hrs.reader
    exact ⟨i, j, hi, hj, .single ((edge_iff_feeds hg hi hj).mpr hrs)⟩
  | tail _ hst ih =>
    obtain ⟨i, j, hi, hj, hpath⟩ := ih
    obtain ⟨k, hk⟩ := List.getElem?_of_mem hst.reader
    exact ⟨i, k, hi, hk, hpath.tail ((edge_iff_feeds hg hj hk).mpr hst)⟩

/-- Rules that lead back to themselves make a cycle of positions. -/
theorem not_acyclic_of_feeds (hg : g.rules.Pairwise Rule.Compatible) {r : Rule m}
    (h : Relation.TransGen g.Feeds r r) : ¬ g.edges.Acyclic := by
  obtain ⟨i, j, hi, hj, hpath⟩ := exists_path_of_feeds hg h
  have hlt : i < g.enabledRules.length := (List.getElem?_eq_some_iff.mp hi).choose
  have hij : i = j := (List.getElem?_inj hlt (ids_nodup hg).of_map).mp (hi.trans hj.symm)
  intro hacyclic
  exact hacyclic i (hij ▸ hpath)

section Positions

variable {nodes : List Nat} {ruleAt : Nat → Rule m}

/-- The ids at some positions are those of the rules there. -/
theorem idsOf_eq_map (hat : ∀ i ∈ nodes, g.enabledRules[i]? = some (ruleAt i)) :
    DependencyGraph.idsOf (g.enabledRules.map (·.id)) nodes =
      (nodes.map ruleAt).map (·.id) := by
  have hsome : (nodes.map ruleAt).map (·.id) =
      nodes.filterMap (some ∘ fun i => (ruleAt i).id) := by
    rw [List.filterMap_eq_map, List.map_map]
    rfl
  rw [DependencyGraph.idsOf, hsome]
  refine List.filterMap_congr ?_
  intro i hi
  rw [List.getElem?_map, hat i hi]
  rfl

/-- Rules at different positions have different ids. -/
theorem ids_nodup_of_nodup (hg : g.rules.Pairwise Rule.Compatible)
    (hat : ∀ i ∈ nodes, g.enabledRules[i]? = some (ruleAt i)) (hnodup : nodes.Nodup) :
    ((nodes.map ruleAt).map (·.id)).Nodup := by
  rw [List.map_map]
  refine hnodup.map_on fun i hi j hj hij => ?_
  have hlt : i < (g.enabledRules.map (·.id)).length := by
    rw [List.length_map]
    exact (List.getElem?_eq_some_iff.mp (hat i hi)).choose
  refine (List.getElem?_inj hlt (ids_nodup hg)).mp ?_
  rw [List.getElem?_map, List.getElem?_map, hat i hi, hat j hj]
  exact congrArg some hij

end Positions

/-- No position has an edge to itself. -/
theorem not_edge_self (g : Registry m) (i : Nat) : ¬ g.edges.Edge i i := by
  intro hi
  obtain ⟨_, _, _, _, hne, _⟩ := Digraph.mem_next_ofRelation.mp hi
  exact hne rfl

/-- The rules at the positions of a cycle depend on each other in a circle. -/
theorem isCircle_of_isCycle (hg : g.rules.Pairwise Rule.Compatible) {cycle : List Nat}
    (h : g.edges.IsCycle cycle) :
    ∃ circle, g.IsCircle circle ∧
      DependencyGraph.idsOf (g.enabledRules.map (·.id)) cycle = circle.map (·.id) := by
  -- Every node of the cycle is the position of a rule, for an edge starts there.
  have hrule (i : Nat) (hi : i ∈ cycle) : ∃ r, g.enabledRules[i]? = some r := by
    obtain ⟨j, hj⟩ := h.exists_edge hi
    obtain ⟨r, _, hr, _⟩ := Digraph.mem_next_ofRelation.mp hj
    exact ⟨r, hr⟩
  obtain ⟨first, last, hfirst, hlast, hclosed⟩ := h.closed
  have hfirst_mem : first ∈ cycle := List.mem_of_head? hfirst
  have hlast_mem : last ∈ cycle := List.mem_of_getLast? hlast
  obtain ⟨r₀, -⟩ := hrule first hfirst_mem
  let ruleAt (i : Nat) : Rule m := g.enabledRules[i]?.getD r₀
  have hat (i : Nat) (hi : i ∈ cycle) : g.enabledRules[i]? = some (ruleAt i) := by
    obtain ⟨r, hr⟩ := hrule i hi
    simp only [ruleAt, hr, Option.getD_some]
  have hfeeds (i j : Nat) (hi : i ∈ cycle) (hj : j ∈ cycle) (hij : g.edges.Edge i j) :
      g.Feeds (ruleAt i) (ruleAt j) :=
    (edge_iff_feeds hg (hat i hi) (hat j hj)).mp hij
  have hchain : (cycle.map ruleAt).IsChain g.Feeds :=
    (List.isChain_map ruleAt).mpr
      (List.IsChain.imp_of_mem_imp (fun i j hi hj hij => hfeeds i j hi hj hij) h.chain)
  have htwo : 2 ≤ (cycle.map ruleAt).length := by
    rw [List.length_map]
    exact h.two_le_length g.not_edge_self
  refine ⟨cycle.map ruleAt, ⟨ids_nodup_of_nodup hg hat h.nodup, htwo, hchain,
    ruleAt first, ruleAt last, ?_, ?_, ?_⟩, idsOf_eq_map hat⟩
  · rw [List.head?_map, hfirst]
    rfl
  · rw [List.getLast?_map, hlast]
    rfl
  · exact hfeeds last first hlast_mem hfirst_mem hclosed

end Registry

namespace DependencyGraph

variable {g : Registry m} {c : DependencyCycle}

/-- The graph cannot be built exactly if the search finds a cycle, and the rules of the cycle
are named. -/
theorem build_eq_error_iff :
    build g = .error c ↔
      ∃ cycle, g.edges.findCycle = some cycle ∧
        c = ⟨idsOf (g.enabledRules.map (·.id)) cycle⟩ := by
  unfold build Registry.edges
  cases h : (Digraph.ofRelation Rule.feeds g.enabledRules).findCycle with
  | none => simp [h]
  | some cycle =>
    simp only [h, Except.error.injEq, Option.some.injEq, exists_eq_left']
    exact eq_comm

/-- **A graph that cannot be built** names rules that depend on each other in a circle. -/
theorem isCircle_of_build (hg : g.rules.Pairwise Rule.Compatible) (h : build g = .error c) :
    ∃ circle, g.IsCircle circle ∧ c.ids = circle.map (·.id) := by
  obtain ⟨cycle, hcycle, rfl⟩ := build_eq_error_iff.mp h
  have hrange : g.edges.InRange := Digraph.inRange_ofRelation _ _
  exact Registry.isCircle_of_isCycle hg (Digraph.isCycle_of_findCycle hrange hcycle)

/-- The graph can be built if no rule leads back to itself, and only then. -/
theorem build_fails_iff (hg : g.rules.Pairwise Rule.Compatible) :
    (∃ c, build g = .error c) ↔ ∃ r, Relation.TransGen g.Feeds r r := by
  constructor
  · rintro ⟨c, hc⟩
    obtain ⟨circle, hcircle, -⟩ := isCircle_of_build hg hc
    exact hcircle.transGen
  · rintro ⟨r, hr⟩
    have hrange : g.edges.InRange := Digraph.inRange_ofRelation _ _
    have hfound : g.edges.findCycle ≠ none := fun hnone =>
      Registry.not_acyclic_of_feeds hg hr (Digraph.acyclic_of_findCycle hrange hnone)
    obtain ⟨cycle, hcycle⟩ := Option.ne_none_iff_exists'.mp hfound
    exact ⟨_, build_eq_error_iff.mpr ⟨cycle, hcycle, rfl⟩⟩

end DependencyGraph

/-- **The detection of cycles.**  The graph of a registry cannot be built exactly if some rule
feeds another one, that one a third one, and so on back to the first; then the rules that are
named form such a circle.  In every graph whose edges lead to nodes the search cannot move for
ever, and it comes to a place where it stops with its answer; wherever it comes, the grey nodes
are on the path, so that the look-up there never fails; and it finds nothing exactly if there
is no cycle. -/
theorem cycle_detection :
    (∀ g : Registry m, g.Reachable →
      ((∃ c, DependencyGraph.build g = .error c) ↔ ∃ r, Relation.TransGen g.Feeds r r) ∧
      ∀ c, DependencyGraph.build g = .error c →
        ∃ circle, g.IsCircle circle ∧ c.ids = circle.map (·.id)) ∧
    ∀ g : Digraph, g.InRange →
      WellFounded (fun next now => g.Move now next) ∧
      (∃ p, g.Met p ∧ g.Stops p g.findCycle) ∧
      (∀ p, g.Met p → ∀ i : Nat, p.colours[i]? = some .grey →
        i ∈ p.path ∧ p.path.findIdx? (· == i) ≠ none) ∧
      (g.findCycle = none ↔ g.Acyclic) := by
  constructor
  · intro g hg
    exact ⟨DependencyGraph.build_fails_iff hg.compatible,
      fun c hc => DependencyGraph.isCircle_of_build hg.compatible hc⟩
  · intro g hg
    exact ⟨Digraph.Move.wellFounded g, Digraph.findCycle_stops hg,
      fun p hp i hi => hp.mem_path hi, Digraph.findCycle_eq_none_iff hg⟩

/-! ### Two rules that feed each other -/

namespace Mutual

/-- A rule that declares to read one key and to write another. -/
def linking (name source target : String) : Rule Id where
  id := name
  name := name
  version := defaultVersion
  builtIn := false
  enabled := true
  body := .native name fun d => .ok d
  reads := .ofList [[.key source]]
  writes := .ofList [[.key target]]
  description := none
  updatedAt := none
  codeHash := ""

def registry : Registry Id :=
  (Registry.empty.edit.performAll
    [.add (linking "second" "b" "a"), .add (linking "first" "a" "b")]).build

theorem reachable : registry.Reachable := .revise .empty _

/-- The graph of the two rules. -/
def graph : Digraph := ⟨[[1], [0]]⟩

theorem findCycle_graph : graph.findCycle = some [0, 1] := by cbv

theorem build_eq : DependencyGraph.build registry = .error ⟨["first", "second"]⟩ := by
  have hedges : registry.edges = graph := rfl
  exact DependencyGraph.build_eq_error_iff.mpr ⟨[0, 1], hedges ▸ findCycle_graph, rfl⟩

theorem inRange : graph.InRange := by
  intro i j hj
  match i with
  | 0 | 1 => simp_all [graph, Digraph.next, Digraph.size]
  | _ + 2 => simp [graph, Digraph.next] at hj

end Mutual

open Mutual in
theorem cycle_detection_mutual :
    (∃ r, Relation.TransGen registry.Feeds r r) ∧
      (∃ circle, registry.IsCircle circle ∧ ["first", "second"] = circle.map (·.id)) ∧
      graph.findCycle = some [0, 1] ∧ ¬ graph.Acyclic := by
  obtain ⟨hregistry, hgraph⟩ := cycle_detection (m := Id)
  obtain ⟨hfails, hcircle⟩ := hregistry registry reachable
  obtain ⟨-, -, -, hnone⟩ := hgraph graph inRange
  refine ⟨hfails.mp ⟨_, build_eq⟩, hcircle _ build_eq, findCycle_graph, fun hacyclic => ?_⟩
  have hfound := findCycle_graph
  rw [hnone.mpr hacyclic] at hfound
  cases hfound

end DocumentRules
