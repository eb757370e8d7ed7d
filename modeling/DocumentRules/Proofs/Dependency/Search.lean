/-
The search for a cycle finds one exactly if there is one.

The search is followed by an invariant (`Exploring`): the grey nodes are those on the stack,
the path keeps step with the stack, and from a black node on no path goes on for ever.

* **`Exploring.descend`** — the search from a stack never strays, and ends with a cycle or
  with an empty stack;
* **`isCycle_of_findCycle`** — what the search finds is a cycle;
* **`acyclic_of_findCycle`** — if it finds nothing, there is no cycle.

That a black node is accessible by the edges, backwards, is all that is kept of the nodes the
search is done with: a node turns black when all its successors are accessible.
-/
import DocumentRules.Dependency.Digraph
import DocumentRules.Proofs.Dependency.Emission
import Mathlib.Data.Fintype.EquivFin
import Mathlib.Data.List.Chain
import Mathlib.Order.WellFounded

namespace DocumentRules.Digraph

/-- There is an edge between the nodes. -/
def Edge (g : Digraph) (i j : Nat) : Prop := j ∈ g.next i

/-- No path of edges comes back to where it started. -/
def Acyclic (g : Digraph) : Prop := ∀ i, ¬ Relation.TransGen g.Edge i i

/-- Different nodes, each with an edge to the next one, and the last with one to the first. -/
structure IsCycle (g : Digraph) (cycle : List Nat) : Prop where
  nodup : cycle.Nodup
  chain : cycle.IsChain g.Edge
  closed : ∃ first last, cycle.head? = some first ∧ cycle.getLast? = some last ∧
    g.Edge last first

/-- From the node on no path of edges goes on for ever. -/
def Settled (g : Digraph) (i : Nat) : Prop := Acc (fun j i => g.Edge i j) i

theorem Settled.of_successors {g : Digraph} {i : Nat} (h : ∀ j, g.Edge i j → g.Settled j) :
    g.Settled i := Acc.intro i h

theorem acyclic_of_settled {g : Digraph} (h : ∀ i, g.Settled i) : g.Acyclic := by
  intro i hi
  have hacc : Acc (Relation.TransGen fun j i => g.Edge i j) i := (h i).transGen
  have hloop : Relation.TransGen (fun j i => g.Edge i j) i i := Relation.transGen_swap.mpr hi
  clear hi
  -- A loop would lead from an accessible node to itself.
  induction hacc with
  | intro i _ ih => exact ih i hloop hloop

/-! ### The stack -/

/-- Every frame has looked at the successors of its node, but for those that are pending: they
are black, or the node of the frame above. -/
inductive Frames (g : Digraph) (colours : List Colour) : Option Nat → Stack → Prop where
  | nil (above : Option Nat) : Frames g colours above []
  | cons {above : Option Nat} {node : Nat} {pending : List Nat} {rest : Stack}
      (looked : ∀ j, g.Edge node j →
        j ∈ pending ∨ colours[j]? = some .black ∨ above = some j)
      (edges : ∀ j, j ∈ pending ∨ above = some j → g.Edge node j)
      (below : Frames g colours (some node) rest) : Frames g colours above ((node, pending) :: rest)

namespace Frames

variable {g : Digraph} {colours colours' : List Colour} {above : Option Nat} {stack : Stack}

theorem mono (hblack : ∀ j : Nat, colours[j]? = some .black → colours'[j]? = some .black)
    (h : Frames g colours above stack) : Frames g colours' above stack := by
  induction h with
  | nil above => exact .nil above
  | cons looked edges _ ih =>
    exact .cons (fun j hj => (looked j hj).imp_right (Or.imp_left (hblack j))) edges ih

/-- The frame above is done with. -/
theorem settle {node : Nat} (hnode : colours[node]? = some .black)
    (h : Frames g colours (some node) stack) : Frames g colours none stack := by
  cases h with
  | nil => exact .nil none
  | cons looked edges below =>
    refine .cons (fun j hj => ?_) (fun j hj => ?_) below
    · rcases looked j hj with hp | hb | he
      · exact Or.inl hp
      · exact Or.inr (Or.inl hb)
      · cases he
        exact Or.inr (Or.inl hnode)
    · rcases hj with hp | he
      · exact edges j (Or.inl hp)
      · cases he

/-- The next pending successor of the top is black, or becomes the node of the frame above. -/
theorem advance {node j : Nat} {pending : List Nat} {rest : Stack}
    (h : Frames g colours none ((node, j :: pending) :: rest))
    (hj : colours[j]? = some .black ∨ above = some j) (habove : ∀ i, above = some i → i = j) :
    Frames g colours above ((node, pending) :: rest) := by
  cases h with
  | cons looked edges below =>
    refine .cons (fun i hi => ?_) (fun i hi => edges i (Or.inl ?_)) below
    · rcases looked i hi with hp | hb | he
      · rcases List.mem_cons.mp hp with rfl | hp
        · exact Or.inr hj
        · exact Or.inl hp
      · exact Or.inr (Or.inl hb)
      · cases he
    · rcases hi with hp | he
      · exact List.mem_cons_of_mem _ hp
      · rw [habove i he]
        exact List.mem_cons_self ..

/-- The nodes on the stack, from the top down, are a path backwards. -/
theorem isChain (h : Frames g colours above stack) :
    (above.toList ++ stack.map (·.1)).IsChain fun j i => g.Edge i j := by
  induction h with
  | nil above => cases above <;> simp
  | @cons above node pending rest looked edges below ih =>
    cases above with
    | none => exact ih
    | some j =>
      have hnode : g.Edge node j := edges j (Or.inr rfl)
      exact List.IsChain.cons_cons hnode ih

end Frames

/-- The search stands at this stack with these colours and this path. -/
structure Exploring (g : Digraph) (colours : List Colour) (path : List Nat) (stack : Stack) :
    Prop where
  length : colours.length = g.size
  spells : path = (stack.map (·.1)).reverse
  nodup : (stack.map (·.1)).Nodup
  grey : ∀ i : Nat, colours[i]? = some .grey ↔ i ∈ stack.map (·.1)
  settled : ∀ i : Nat, colours[i]? = some .black → g.Settled i
  frames : Frames g colours none stack

/-- How a search from the stack may end: never astray; with a cycle; or with nothing on the
stack and no node white that was not white before. -/
def Search.Sound (g : Digraph) (colours : List Colour) : Search → Prop
  | .closed cycle => g.IsCycle cycle
  | .strayed => False
  | .finished colours' path => g.Exploring colours' path [] ∧
    ∀ i : Nat, colours'[i]? = some .white → colours[i]? = some .white

theorem white_of_set {colours : List Colour} {c : Colour} (hc : c ≠ .white) {i k : Nat}
    (h : (colours.set i c)[k]? = some .white) : colours[k]? = some .white := by
  rw [List.getElem?_set] at h
  split at h
  · split at h
    · exact absurd (Option.some.inj h) hc
    · cases h
  · exact h

/-- Painting a node that is met, or done with, makes none white. -/
theorem Search.Sound.of_set {g : Digraph} {colours : List Colour} {c : Colour} (hc : c ≠ .white)
    {i : Nat} {result : Search} (h : result.Sound g (colours.set i c)) :
    result.Sound g colours := by
  cases result with
  | closed cycle => exact h
  | strayed => exact h
  | finished colours' path => exact ⟨h.1, fun k hk => white_of_set hc (h.2 k hk)⟩

namespace Exploring

variable {g : Digraph} {colours : List Colour} {path : List Nat} {node j : Nat}
  {pending : List Nat} {rest : Stack}

/-- **The path leads through the grey nodes**, and through no others. -/
theorem mem_path {stack : Stack} (h : g.Exploring colours path stack) {i : Nat} :
    i ∈ path ↔ colours[i]? = some .grey := by
  rw [h.spells, List.mem_reverse, h.grey]

/-- All successors of the top have been looked at: it turns black. -/
theorem finish (h : g.Exploring colours path ((node, []) :: rest)) :
    g.Exploring (colours.set node .black) path.dropLast rest := by
  have hgrey : colours[node]? = some .grey := (h.grey node).mpr (List.mem_cons_self ..)
  have hlt : node < colours.length := (List.getElem?_eq_some_iff.mp hgrey).choose
  obtain ⟨hnot, hnodup⟩ := List.nodup_cons.mp h.nodup
  have hset (i : Nat) : (colours.set node .black)[i]? =
      if node = i then some .black else colours[i]? := List.getElem?_set_of_lt' _ _ hlt
  cases h.frames with
  | cons looked _ below =>
    refine ⟨by rw [List.length_set, h.length], ?_, hnodup, fun i => ?_, fun i hi => ?_, ?_⟩
    · rw [h.spells, List.map_cons, List.reverse_cons, List.dropLast_concat]
    · rw [hset]
      by_cases hni : node = i
      · subst hni
        simpa using hnot
      · have := h.grey i
        simpa [hni, Ne.symm hni] using this
    · rw [hset] at hi
      by_cases hni : node = i
      · -- Nothing is pending, so every successor is black.
        subst hni
        refine .of_successors ?_
        intro j hj
        rcases looked j hj with hp | hb | he
        · cases hp
        · exact h.settled j hb
        · cases he
      · exact h.settled i (by simpa [hni] using hi)
    · refine .settle (by simp [hset]) (below.mono fun j hj => ?_)
      have hne : node ≠ j := fun e => by simp [← e, hgrey] at hj
      simpa [hset, hne] using hj

/-- A white node turns grey and goes on the stack. -/
theorem enter {stack stack' : Stack} (h : g.Exploring colours path stack)
    (hwhite : colours[j]? = some .white) (hsame : stack'.map (·.1) = stack.map (·.1))
    (hframes : Frames g colours (some j) stack') :
    g.Exploring (colours.set j .grey) (path ++ [j]) ((j, g.next j) :: stack') := by
  have hlt : j < colours.length := (List.getElem?_eq_some_iff.mp hwhite).choose
  have hset (i : Nat) : (colours.set j .grey)[i]? = if j = i then some .grey else colours[i]? :=
    List.getElem?_set_of_lt' _ _ hlt
  have hnot : j ∉ stack.map (·.1) := fun hm => by
    have := (h.grey j).mpr hm
    simp [hwhite] at this
  refine ⟨by rw [List.length_set, h.length], ?_, ?_, fun i => ?_, fun i hi => ?_,
    .cons (fun i hi => Or.inl hi) (fun i hi => ?_) (hframes.mono fun i hi => ?_)⟩
  · rw [h.spells, List.map_cons, hsame, List.reverse_cons]
  · rw [List.map_cons, hsame]
    exact List.nodup_cons.mpr ⟨hnot, h.nodup⟩
  · rw [hset, List.map_cons, hsame, List.mem_cons, ← h.grey]
    by_cases hji : j = i
    · simp [hji]
    · simp [hji, Ne.symm hji]
  · rw [hset] at hi
    by_cases hji : j = i
    · simp [hji] at hi
    · exact h.settled i (by simpa [hji] using hi)
  · rcases hi with hi | he
    · exact hi
    · cases he
  · have hne : j ≠ i := fun e => by simp [← e, hwhite] at hi
    simpa [hset, hne] using hi

/-- A white successor goes on the stack. -/
theorem push (h : g.Exploring colours path ((node, j :: pending) :: rest))
    (hwhite : colours[j]? = some .white) :
    g.Exploring (colours.set j .grey) (path ++ [j])
      ((j, g.next j) :: (node, pending) :: rest) := by
  refine h.enter hwhite rfl (h.frames.advance (Or.inr rfl) ?_)
  rintro _ ⟨⟩
  rfl

/-- A black successor needs no second look. -/
theorem skip (h : g.Exploring colours path ((node, j :: pending) :: rest))
    (hblack : colours[j]? = some .black) :
    g.Exploring colours path ((node, pending) :: rest) := by
  refine ⟨h.length, h.spells, h.nodup, h.grey, h.settled, h.frames.advance (Or.inl hblack) ?_⟩
  rintro _ ⟨⟩

/-- A grey successor is on the path, and from it on the path is a cycle. -/
theorem close (h : g.Exploring colours path ((node, j :: pending) :: rest))
    (hgrey : colours[j]? = some .grey) :
    ∃ start, path.findIdx? (· == j) = some start ∧ g.IsCycle (path.drop start) := by
  have hmem : j ∈ path := h.mem_path.mpr hgrey
  have hedge : g.Edge node j := by
    cases h.frames with
    | cons _ edges _ => exact edges j (Or.inl (List.mem_cons_self ..))
  cases hstart : path.findIdx? (· == j) with
  | none => simpa using List.findIdx?_eq_none_iff.mp hstart j hmem
  | some start =>
    obtain ⟨hlt, hfound, -⟩ := List.findIdx?_eq_some_iff_getElem.mp hstart
    refine ⟨start, rfl, ?_, ?_, j, node, ?_, ?_, hedge⟩
    · have hnodup : path.Nodup := h.spells ▸ List.nodup_reverse.mpr h.nodup
      exact hnodup.sublist (List.drop_sublist ..)
    · have hchain : path.IsChain g.Edge := h.spells ▸ List.isChain_reverse.mpr h.frames.isChain
      exact hchain.drop start
    · rw [List.head?_drop, List.getElem?_eq_getElem hlt]
      exact congrArg some (by simpa using hfound)
    · rw [List.getLast?_drop, if_neg (by omega), h.spells, List.getLast?_reverse]
      rfl

/-- A pending successor that is neither white nor grey is black. -/
theorem black_of_pending (hg : g.InRange)
    (h : g.Exploring colours path ((node, j :: pending) :: rest))
    (hnotWhite : colours[j]? ≠ some .white) (hnotGrey : colours[j]? ≠ some .grey) :
    colours[j]? = some .black := by
  -- Edges lead to nodes, and every node has a colour.
  have hlt : j < colours.length := by
    rw [h.length]
    cases h.frames with
    | cons _ edges _ => exact hg node j (edges j (Or.inl (List.mem_cons_self ..)))
  rw [List.getElem?_eq_getElem hlt] at hnotWhite hnotGrey ⊢
  cases hcolour : colours[j] with
  | white => exact absurd (congrArg some hcolour) hnotWhite
  | grey => exact absurd (congrArg some hcolour) hnotGrey
  | black => rfl

/-- **The search never strays**: it ends with a cycle or with an empty stack. -/
theorem descend (hg : g.InRange) {stack : Stack} (h : g.Exploring colours path stack) :
    (g.descend colours path stack).Sound g colours := by
  fun_induction Digraph.descend g colours path stack with
  | case1 colours path => exact ⟨h, fun i hi => hi⟩
  | case2 colours path node rest ih => exact (ih h.finish).of_set (by decide)
  | case3 colours path node j pending rest hwhite ih =>
    exact (ih (h.push hwhite)).of_set (by decide)
  | case4 colours path node j pending rest hgrey start hstart =>
    obtain ⟨start', hstart', hcycle⟩ := h.close hgrey
    cases hstart.symm.trans hstart'
    exact hcycle
  | case5 colours path node j pending rest hgrey hnone =>
    obtain ⟨start, hstart, -⟩ := h.close hgrey
    cases hnone.symm.trans hstart
  | case6 colours path node j pending rest hnotWhite hnotGrey ih =>
    exact ih (h.skip (h.black_of_pending hg hnotWhite hnotGrey))

end Exploring

/-! ### The whole search -/

/-- Searching from one node after another gives a cycle, or settles every node. -/
theorem searchFrom_sound {g : Digraph} (hg : g.InRange) {colours : List Colour}
    {path : List Nat} (h : g.Exploring colours path []) (starts : List Nat) :
    (∀ cycle, g.searchFrom colours path starts = some cycle → g.IsCycle cycle) ∧
      (g.searchFrom colours path starts = none →
        (∀ i : Nat, colours[i]? = some .white → i ∈ starts) → ∀ i, g.Settled i) := by
  induction starts generalizing colours path with
  | nil =>
    refine ⟨fun _ hcycle => ?_, fun _ hwhite i => ?_⟩
    · rw [searchFrom] at hcycle
      cases hcycle
    cases hcolour : colours[i]? with
    | none =>
      -- Not a node: it has no successors.
      have hout : g.size ≤ i := by
        rw [← h.length]
        exact List.getElem?_eq_none_iff.mp hcolour
      have hnext : g.next i = [] := by
        rw [next, List.getElem?_eq_none_iff.mpr hout]
        rfl
      refine .of_successors ?_
      intro j hj
      rw [Edge, hnext] at hj
      cases hj
    | some c =>
      cases c with
      | white => exact absurd (hwhite i hcolour) List.not_mem_nil
      -- The grey nodes are those on the stack, which is empty.
      | grey => exact absurd ((h.grey i).mp hcolour) List.not_mem_nil
      | black => exact h.settled i hcolour
  | cons start starts ih =>
    unfold searchFrom
    split
    · rename_i hstart
      have hsound := (h.enter hstart rfl (.nil _)).descend hg
      split
      · rename_i cycle hresult
        rw [hresult] at hsound
        refine ⟨fun _ hcycle => ?_, fun hnone => ?_⟩
        · cases hcycle
          exact hsound
        · cases hnone
      · rename_i hresult
        rw [hresult] at hsound
        exact hsound.elim
      · rename_i colours' path' hresult
        rw [hresult] at hsound
        obtain ⟨hexploring, hstill⟩ := hsound
        refine ⟨(ih hexploring).1, fun hnone hwhite => (ih hexploring).2 hnone fun i hi => ?_⟩
        have hset := hstill i hi
        rcases List.mem_cons.mp (hwhite i (white_of_set (by decide) hset)) with rfl | hmem
        · have hlt : i < colours.length := (List.getElem?_eq_some_iff.mp hstart).choose
          rw [List.getElem?_set_self hlt] at hset
          cases hset
        · exact hmem
    · rename_i hstart
      refine ⟨(ih h).1, fun hnone hwhite => (ih h).2 hnone fun i hi => ?_⟩
      rcases List.mem_cons.mp (hwhite i hi) with rfl | hmem
      · exact absurd hi hstart
      · exact hmem

theorem exploring_all_white (g : Digraph) :
    g.Exploring (List.replicate g.size .white) [] [] where
  length := List.length_replicate ..
  spells := rfl
  nodup := List.nodup_nil
  grey i := by simp [List.getElem?_replicate]
  settled i hi := by simp [List.getElem?_replicate] at hi
  frames := .nil none

/-- **What the search finds is a cycle.** -/
theorem isCycle_of_findCycle {g : Digraph} (hg : g.InRange) {cycle : List Nat}
    (h : g.findCycle = some cycle) : g.IsCycle cycle :=
  (searchFrom_sound hg g.exploring_all_white _).1 cycle h

/-- **If the search finds nothing, there is no cycle.** -/
theorem acyclic_of_findCycle {g : Digraph} (hg : g.InRange) (h : g.findCycle = none) :
    g.Acyclic := by
  refine acyclic_of_settled ((searchFrom_sound hg g.exploring_all_white _).2 h fun i hi => ?_)
  rw [List.mem_range]
  simpa [List.getElem?_replicate] using hi

/-! ### The order of a graph without cycles -/

/-- A set of nodes in which every node has a predecessor is empty. -/
theorem Acyclic.exists_first {g : Digraph} (h : g.Acyclic) {p : Nat → Prop} {j : Nat} (hj : p j)
    (hlt : ∀ i, p i → i < g.size) : ∃ i, p i ∧ ∀ k, p k → ¬ g.Edge k i := by
  -- On finitely many nodes the paths are a well-founded order, which has a minimum.
  let below (i k : Fin g.size) : Prop := Relation.TransGen g.Edge i.val k.val
  have htrans : IsTrans (Fin g.size) below := ⟨fun _ _ _ => Relation.TransGen.trans⟩
  have hirrefl : Std.Irrefl below := ⟨fun i => h i.val⟩
  have hwf : WellFounded below := Finite.wellFounded_of_trans_of_irrefl below
  obtain ⟨i, hi, hfirst⟩ := hwf.has_min { i | p i.val } ⟨⟨j, hlt j hj⟩, hj⟩
  exact ⟨i, hi, fun k hk he => hfirst ⟨k, hlt k hk⟩ hk (.single he)⟩

/-- **In a graph without cycles every node is emitted.** -/
theorem Emits.mem_order {g : Digraph} {done order : List Nat} (h : g.Emits done order)
    (hg : g.Acyclic) {j : Nat} (hj : j < g.size) (hd : j ∉ done) : j ∈ order := by
  induction h with
  | stop stuck =>
    obtain ⟨i, ⟨hi, hfresh⟩, hfirst⟩ := hg.exists_first
      (p := fun i => i < g.size ∧ i ∉ _) ⟨hj, hd⟩ fun i hi => hi.1
    refine absurd (fun k hk he => ?_) (stuck i hi hfresh)
    by_contra hk'
    exact hfirst k ⟨hk, hk'⟩ he
  | @next done order node _ _ _ _ _ ih =>
    by_cases hjn : j = node
    · exact List.mem_cons.mpr (Or.inl hjn)
    · exact List.mem_cons_of_mem _ (ih (by simp [hjn, hd]))

end DocumentRules.Digraph
