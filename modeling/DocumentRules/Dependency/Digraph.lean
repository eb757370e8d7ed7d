/-
Directed graphs on the numbers below a bound, and the search for a cycle in one.

A graph is the list of the successors of each node; edges to numbers that are no nodes are
ignored by every search.

The search is depth-first with an explicit stack, and beside it the path of the nodes met on
the way.  A node is white until it is met, grey while it is on the stack and black when all its
successors have been looked at.  An edge from the top of the stack to a grey node closes a
cycle: the nodes on the path from that node on.

* `Digraph.descend` — the search from the nodes on the stack;
* `Digraph.findCycle` — the cycle that the search from `0`, `1`, `2` … meets first.

Each turn either paints a white node or shortens what the stack still has to look at, so the
search ends; `whites_set_lt` and `whites_set_le` say so of the painting.
-/
namespace DocumentRules

/-- A directed graph, by the successors of the nodes `0`, `1`, `2` … -/
structure Digraph where
  successors : List (List Nat)

namespace Digraph

def size (g : Digraph) : Nat := g.successors.length

def next (g : Digraph) (i : Nat) : List Nat := g.successors[i]?.getD []

def hasEdge (g : Digraph) (i j : Nat) : Bool := (g.next i).contains j

/-- The graph of a relation on the members of a list, without loops. Nodes are positions. -/
def ofRelation {α : Type} (related : α → α → Bool) (members : List α) : Digraph where
  successors := members.zipIdx.map fun (a, i) =>
    (members.zipIdx.filter fun (b, j) => i != j && related a b).map (·.2)

end Digraph

/-! ### Search for a cycle -/

/-- How far the search has got with a node. -/
inductive Colour where
  /-- Not met. -/
  | white
  /-- On the stack. -/
  | grey
  /-- Done with. -/
  | black
  deriving DecidableEq

namespace Digraph

/-- The number of nodes that have not been met. -/
def whites (colours : List Colour) : Nat := colours.count .white

theorem whites_set_le {c : Colour} (hc : c ≠ .white) (colours : List Colour) (i : Nat) :
    whites (colours.set i c) ≤ whites colours := by
  unfold whites
  induction colours generalizing i with
  | nil => simp
  | cons d ds ih =>
    cases i with
    | zero => simp [List.count_cons, hc]
    | succ i =>
      have := ih i
      simp only [List.set_cons_succ, List.count_cons]
      omega

theorem whites_set_lt {c : Colour} (hc : c ≠ .white) {colours : List Colour} {i : Nat}
    (h : colours[i]? = some .white) : whites (colours.set i c) < whites colours := by
  unfold whites
  induction colours generalizing i with
  | nil => simp at h
  | cons d ds ih =>
    cases i with
    | zero =>
      simp only [List.getElem?_cons_zero, Option.some.injEq] at h
      simp [h, hc]
    | succ i =>
      have := ih (i := i) (by simpa using h)
      simp only [List.set_cons_succ, List.count_cons]
      omega

/-- A stack of nodes, the last one met first, each with the successors still to look at. -/
abbrev Stack := List (Nat × List Nat)

/-- What the stack still has to look at. -/
def Stack.workload : Stack → Nat
  | [] => 0
  | (_, pending) :: rest => pending.length + 1 + workload rest

/-- How a search ends. -/
inductive Search where
  /-- An edge leads back to the first of these nodes, which form a path. -/
  | closed (cycle : List Nat)
  /-- An edge leads to a grey node that is not on the path. -/
  | strayed
  /-- No cycle was met. -/
  | finished (colours : List Colour) (path : List Nat)

/-- Search from the nodes on the stack; the path was taken to the last one of them. -/
def descend (g : Digraph) (colours : List Colour) (path : List Nat) (stack : Stack) : Search :=
  match stack with
  | [] => .finished colours path
  -- All successors have been looked at.
  | (node, []) :: rest => descend g (colours.set node .black) path.dropLast rest
  | (node, j :: pending) :: rest =>
    match _h : colours[j]? with
    | some .white =>
      descend g (colours.set j .grey) (path ++ [j]) ((j, g.next j) :: (node, pending) :: rest)
    | some .grey =>
      match path.findIdx? (· == j) with
      | some start => .closed (path.drop start)
      | none => .strayed
    | _ => descend g colours path ((node, pending) :: rest)
termination_by (whites colours, Stack.workload stack)
decreasing_by
  · exact Prod.Lex.right' _ (whites_set_le (by decide) ..) (by simp [Stack.workload])
  · exact Prod.Lex.left _ _ (whites_set_lt (by decide) _h)
  · exact Prod.Lex.right _ (by simp [Stack.workload])

/-- Search from each of these nodes that has not been met. -/
def searchFrom (g : Digraph) (colours : List Colour) (path : List Nat) :
    List Nat → Option (List Nat)
  | [] => none
  | start :: starts =>
    if colours[start]? = some .white then
      match descend g (colours.set start .grey) (path ++ [start]) [(start, g.next start)] with
      | .closed cycle => some cycle
      | .strayed => none
      | .finished colours path => searchFrom g colours path starts
    else searchFrom g colours path starts

/-- A cycle of the graph: each node has an edge to the next one, and the last to the first. -/
def findCycle (g : Digraph) : Option (List Nat) :=
  searchFrom g (List.replicate g.size .white) [] (List.range g.size)

end Digraph

end DocumentRules
