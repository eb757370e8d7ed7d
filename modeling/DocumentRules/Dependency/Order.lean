/-
The order of a graph without cycles.

Every node has a counter of its predecessors that have not been emitted.  The smallest node
whose counter is zero is emitted next, and lowers the counters of its successors.

* `Digraph.order?` — the nodes in the order in which they are emitted; none if a counter
  would fall below zero.

Emitting takes one node from the ready ones, and a node becomes ready when its counter falls
to zero, so the sum of the ready nodes and of the counters above zero falls by one
(`outstanding_release`).
-/
import DocumentRules.Dependency.Digraph
import DocumentRules.Order.OrderedSet

namespace DocumentRules.Digraph

/-- What is left to emit. -/
structure Pending where
  /-- For every node, the number of edges from nodes not yet emitted. -/
  counters : List Nat
  /-- The nodes that wait for no other. -/
  ready : OrderedSet Nat

namespace Pending

/-- The number of nodes that are ready or wait. -/
def outstanding (p : Pending) : Nat := p.ready.size + p.counters.countP (0 < ·)

/-- One edge to `j` less. -/
def release (p : Pending) (j : Nat) : Option Pending :=
  match p.counters[j]? with
  | some (n + 1) =>
    some ⟨p.counters.set j n, if n = 0 then p.ready.insert j else p.ready⟩
  | _ => none

/-- One edge less to each of these nodes. -/
def releaseAll (p : Pending) : List Nat → Option Pending
  | [] => some p
  | j :: js =>
    match p.release j with
    | some q => releaseAll q js
    | none => none

theorem size_insert_le (a : Nat) (s : OrderedSet Nat) : (s.insert a).size ≤ s.size + 1 := by
  have h (bs : List Nat) : (OrderedSet.insertAscending a bs).length ≤ bs.length + 1 := by
    induction bs with
    | nil => simp [OrderedSet.insertAscending]
    | cons b bs ih =>
      unfold OrderedSet.insertAscending
      split
      · simp
      · split
        · simp
        · simpa using ih
  exact h s.toList

theorem countP_set {counters : List Nat} {j n : Nat} (h : counters[j]? = some (n + 1)) :
    (counters.set j n).countP (0 < ·) + (if n = 0 then 1 else 0) = counters.countP (0 < ·) := by
  induction counters generalizing j with
  | nil => simp at h
  | cons c cs ih =>
    cases j with
    | zero =>
      simp only [List.getElem?_cons_zero, Option.some.injEq] at h
      by_cases hn : n = 0
      · simp [h, hn]
      · have : 0 < n := Nat.pos_of_ne_zero hn
        simp [h, hn, this]
    | succ j =>
      have := ih (j := j) (by simpa using h)
      simp only [List.set_cons_succ, List.countP_cons]
      omega

theorem outstanding_release {p q : Pending} {j : Nat} (h : p.release j = some q) :
    q.outstanding ≤ p.outstanding := by
  unfold release at h
  split at h
  · rename_i n hn
    cases h
    have hc := countP_set hn
    unfold outstanding
    -- Either a counter falls to zero and one node becomes ready, or neither number changes.
    by_cases h0 : n = 0
    · have := size_insert_le j p.ready
      simp only [h0, ↓reduceIte] at hc ⊢
      omega
    · simp only [h0, ↓reduceIte] at hc ⊢
      omega
  · cases h

theorem outstanding_releaseAll {p q : Pending} {js : List Nat} (h : p.releaseAll js = some q) :
    q.outstanding ≤ p.outstanding := by
  induction js generalizing p with
  | nil => cases h; exact Nat.le_refl _
  | cons j js ih =>
    unfold releaseAll at h
    split at h
    · rename_i r hr
      exact Nat.le_trans (ih h) (outstanding_release hr)
    · cases h

/-- The smallest ready node, and what is left without it. -/
def pop? (p : Pending) : Option (Nat × Pending) :=
  match h : p.ready.toList with
  | [] => none
  | node :: nodes =>
    some (node, ⟨p.counters, ⟨nodes, (List.pairwise_cons.mp (h ▸ p.ready.ascending)).2⟩⟩)

theorem outstanding_pop? {p q : Pending} {node : Nat} (h : p.pop? = some (node, q)) :
    q.outstanding < p.outstanding := by
  unfold pop? at h
  split at h
  · cases h
  · rename_i node nodes hr
    cases h
    simp [outstanding, OrderedSet.size, hr]

end Pending

/-- Emit ready nodes until there are none. -/
def emit (g : Digraph) (p : Pending) : Option (List Nat) :=
  match _hp : p.pop? with
  | none => some []
  | some (node, q) =>
    match _hr : q.releaseAll (g.next node) with
    | some r => (emit g r).map (node :: ·)
    | none => none
termination_by p.outstanding
decreasing_by
  exact Nat.lt_of_le_of_lt (Pending.outstanding_releaseAll _hr) (Pending.outstanding_pop? _hp)

/-- The number of edges to a node. -/
def inDegree (g : Digraph) (j : Nat) : Nat := g.successors.flatten.count j

/-- The counters of all nodes and the nodes that wait for no other, before any is emitted. -/
def pending (g : Digraph) : Pending where
  counters := (List.range g.size).map g.inDegree
  ready := .ofList ((List.range g.size).filter fun j => g.inDegree j == 0)

/-- All nodes, each behind its predecessors and, where these leave a choice, the smallest
first. -/
def order? (g : Digraph) : Option (List Nat) := emit g g.pending

end DocumentRules.Digraph
