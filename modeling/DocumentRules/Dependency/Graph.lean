/-
Dependencies between rules.

The nodes are the enabled rules of a registry, in its order.  There is an edge from a rule to
another one that reads something it writes; a rule does not depend on itself.

* `DependencyGraph.build` — the graph with its execution order, or a cycle;
* `dependents`, `dependencies`, `hasEdge` — the edges by rule id.
-/
import DocumentRules.Dependency.Digraph
import DocumentRules.Dependency.Order
import DocumentRules.Registry.Basic

namespace DocumentRules

/-- Rules that depend on each other in a circle, in the order of the edges. -/
structure DependencyCycle where
  ids : List String
  deriving DecidableEq

/-- The first rule is named again at the end. -/
def DependencyCycle.message (c : DependencyCycle) : String :=
  "Cyclic dependency between rules: " ++ String.intercalate " -> " (c.ids ++ c.ids.take 1)

/-- The dependencies of the enabled rules of a registry. -/
structure DependencyGraph where
  /-- The ids of the rules; nodes are positions in this list. -/
  ids : List String
  edges : Digraph
  order : List Nat

namespace DependencyGraph

variable {m : Type → Type}

def idsOf (ids : List String) (nodes : List Nat) : List String := nodes.filterMap (ids[·]?)

/-- The dependencies of the enabled rules, unless these depend on each other in a circle. -/
def build (g : Registry m) : Except DependencyCycle DependencyGraph :=
  let rules := g.enabledRules
  let ids := rules.map (·.id)
  let edges := Digraph.ofRelation Rule.feeds rules
  match edges.findCycle with
  | some cycle => .error ⟨idsOf ids cycle⟩
  | none => .ok ⟨ids, edges, edges.order?.getD []⟩

def size (g : DependencyGraph) : Nat := g.ids.length

/-- The node of a rule, through an index of the ids. -/
def node? (g : DependencyGraph) (id : String) : Option Nat :=
  Entries.find? id (Entries.positions g.ids)

def orderedIds (g : DependencyGraph) : List String := idsOf g.ids g.order

/-- The rules that read something the rule writes. -/
def dependents (g : DependencyGraph) (id : String) : List String :=
  match g.node? id with
  | some i => idsOf g.ids (g.edges.next i)
  | none => []

/-- The rules that write something the rule reads. -/
def dependencies (g : DependencyGraph) (id : String) : List String :=
  match g.node? id with
  | some j => idsOf g.ids ((List.range g.edges.size).filter (g.edges.hasEdge · j))
  | none => []

/-- One rule writes something that the other one reads. -/
def hasEdge (g : DependencyGraph) (writer reader : String) : Bool :=
  match g.node? writer, g.node? reader with
  | some i, some j => g.edges.hasEdge i j
  | _, _ => false

end DependencyGraph

end DocumentRules
