/-
The search for a cycle, move by move.

Between two turns the search stands at a place: the colours of the nodes, the path and the
stack.  A move leads from one place to the next, and the search stops where no move is left.

* **`Move.wellFounded`** — the search cannot move for ever, whatever the graph;
* **`Met.exploring`** — the invariant of the search holds at every place it comes to, so that
  there the grey nodes are those on the path (`Met.mem_path`);
* **`findCycle_stops`** — the search comes to a place where it stops, and its answer is read
  off that place;
* **`findCycle_eq_none_iff`** — it finds nothing exactly if there is no cycle.
-/
import DocumentRules.Proofs.Dependency.Search

namespace DocumentRules.Digraph

/-- Where the search stands. -/
structure Place where
  colours : List Colour
  path : List Nat
  stack : Stack

/-- One turn of the search, from place to place. -/
inductive Move (g : Digraph) : Place → Place → Prop where
  /-- With nothing on the stack, the search starts at a node that has not been met. -/
  | start {colours : List Colour} {path : List Nat} {i : Nat}
      (white : colours[i]? = some .white) :
      Move g ⟨colours, path, []⟩ ⟨colours.set i .grey, path ++ [i], [(i, g.next i)]⟩
  /-- The next successor of the top has not been met. -/
  | push {colours : List Colour} {path : List Nat} {node j : Nat} {pending : List Nat}
      {rest : Stack} (white : colours[j]? = some .white) :
      Move g ⟨colours, path, (node, j :: pending) :: rest⟩
        ⟨colours.set j .grey, path ++ [j], (j, g.next j) :: (node, pending) :: rest⟩
  /-- The search is done with the next successor of the top. -/
  | skip {colours : List Colour} {path : List Nat} {node j : Nat} {pending : List Nat}
      {rest : Stack} (black : colours[j]? = some .black) :
      Move g ⟨colours, path, (node, j :: pending) :: rest⟩ ⟨colours, path, (node, pending) :: rest⟩
  /-- All successors of the top have been looked at. -/
  | finish {colours : List Colour} {path : List Nat} {node : Nat} {rest : Stack} :
      Move g ⟨colours, path, (node, []) :: rest⟩ ⟨colours.set node .black, path.dropLast, rest⟩

/-- Where the search stops, and with which answer. -/
inductive Stops (g : Digraph) : Place → Option (List Nat) → Prop where
  /-- Every node has been met. -/
  | exhausted {colours : List Colour} {path : List Nat}
      (met : ∀ i : Nat, colours[i]? ≠ some .white) : Stops g ⟨colours, path, []⟩ none
  /-- An edge from the top leads to a grey node, which is looked up on the path. -/
  | back {colours : List Colour} {path : List Nat} {node j : Nat} {pending : List Nat}
      {rest : Stack} (grey : colours[j]? = some .grey) :
      Stops g ⟨colours, path, (node, j :: pending) :: rest⟩
        ((path.findIdx? (· == j)).map fun start => path.drop start)

/-- The search of the graph comes to this place. -/
def Met (g : Digraph) (p : Place) : Prop :=
  Relation.ReflTransGen g.Move ⟨List.replicate g.size .white, [], []⟩ p

/-- **The search cannot move for ever**: a move paints a white node, or shortens what the stack
still has to look at. -/
theorem Move.wellFounded (g : Digraph) : WellFounded fun next now => g.Move now next := by
  let measure (p : Place) : Nat × Nat := (whites p.colours, Stack.workload p.stack)
  have hlex : WellFounded (Prod.Lex (· < ·) (· < ·) : Nat × Nat → Nat × Nat → Prop) :=
    WellFounded.prod_lex wellFounded_lt wellFounded_lt
  refine Subrelation.wf (r := InvImage _ measure) ?_ (InvImage.wf measure hlex)
  intro next now h
  cases h with
  | start white => exact Prod.Lex.left _ _ (whites_set_lt (by decide) white)
  | push white => exact Prod.Lex.left _ _ (whites_set_lt (by decide) white)
  | skip black => exact Prod.Lex.right _ (by simp [Stack.workload])
  | finish => exact Prod.Lex.right' _ (whites_set_le (by decide) ..) (by simp [Stack.workload])

namespace Met

variable {g : Digraph} {p q : Place}

theorem move (h : g.Met p) (hpq : g.Move p q) : g.Met q := Relation.ReflTransGen.tail h hpq

/-- **The invariant of the search** holds at every place it comes to. -/
theorem exploring (h : g.Met p) : g.Exploring p.colours p.path p.stack := by
  induction h with
  | refl => exact g.exploring_all_white
  | tail _ hmove ih =>
    cases hmove with
    | start white => exact ih.enter white rfl (.nil _)
    | push white => exact ih.push white
    | skip black => exact ih.skip black
    | finish => exact ih.finish

/-- The grey nodes are on the path, and so the look-up of one never fails. -/
theorem mem_path (h : g.Met p) {i : Nat} (hgrey : p.colours[i]? = some .grey) :
    i ∈ p.path ∧ p.path.findIdx? (· == i) ≠ none := by
  have hmem : i ∈ p.path := h.exploring.mem_path.mpr hgrey
  refine ⟨hmem, fun hnone => ?_⟩
  simpa using List.findIdx?_eq_none_iff.mp hnone i hmem

end Met

/-! ### The places of the search -/

/-- How a search from a stack ends, by the place it comes to: it stops there, or it goes on
with nothing on the stack. -/
def Search.Comes (g : Digraph) : Search → Prop
  | .closed cycle => ∃ p, g.Met p ∧ g.Stops p (some cycle)
  | .strayed => ∃ p, g.Met p ∧ g.Stops p none
  | .finished colours path => g.Met ⟨colours, path, []⟩

/-- The search from a stack goes from one place to the next. -/
theorem descend_comes {g : Digraph} (hg : g.InRange) {colours : List Colour} {path : List Nat}
    {stack : Stack} (h : g.Met ⟨colours, path, stack⟩) :
    (g.descend colours path stack).Comes g := by
  fun_induction Digraph.descend g colours path stack with
  | case1 colours path => exact h
  | case2 colours path node rest ih => exact ih (h.move .finish)
  | case3 colours path node j pending rest hwhite ih => exact ih (h.move (.push hwhite))
  | case4 colours path node j pending rest hgrey start hstart =>
    have hstops : g.Stops ⟨colours, path, (node, j :: pending) :: rest⟩ _ := .back hgrey
    rw [hstart] at hstops
    exact ⟨_, h, hstops⟩
  | case5 colours path node j pending rest hgrey hnone =>
    have hstops : g.Stops ⟨colours, path, (node, j :: pending) :: rest⟩ _ := .back hgrey
    rw [hnone] at hstops
    exact ⟨_, h, hstops⟩
  | case6 colours path node j pending rest hnotWhite hnotGrey ih =>
    exact ih (h.move (.skip (h.exploring.black_of_pending hg hnotWhite hnotGrey)))

/-- Searching from one node after another goes on from place to place, until it stops. -/
theorem searchFrom_stops {g : Digraph} (hg : g.InRange) {colours : List Colour}
    {path : List Nat} (h : g.Met ⟨colours, path, []⟩) {starts : List Nat}
    (hwhite : ∀ i : Nat, colours[i]? = some .white → i ∈ starts) :
    ∃ p, g.Met p ∧ g.Stops p (g.searchFrom colours path starts) := by
  induction starts generalizing colours path with
  | nil => exact ⟨_, h, .exhausted fun i hi => List.not_mem_nil (hwhite i hi)⟩
  | cons start starts ih =>
    unfold searchFrom
    split
    · rename_i hstart
      have hentered : g.Met ⟨colours.set start .grey, path ++ [start], [(start, g.next start)]⟩ :=
        h.move (.start hstart)
      have hcomes := descend_comes hg hentered
      have hsound := hentered.exploring.descend hg
      split
      · rename_i cycle hresult
        rw [hresult] at hcomes
        exact hcomes
      · rename_i hresult
        rw [hresult] at hcomes
        exact hcomes
      · rename_i colours' path' hresult
        rw [hresult] at hcomes hsound
        refine ih hcomes fun i hi => ?_
        -- The search makes no node white, and the start has been painted.
        have hset : (colours.set start .grey)[i]? = some .white := hsound.2 i hi
        rcases List.mem_cons.mp (hwhite i (white_of_set (by decide) hset)) with rfl | hmem
        · have hlt : i < colours.length := (List.getElem?_eq_some_iff.mp hstart).choose
          rw [List.getElem?_set_self hlt] at hset
          cases hset
        · exact hmem
    · rename_i hstart
      refine ih h fun i hi => ?_
      rcases List.mem_cons.mp (hwhite i hi) with rfl | hmem
      · exact absurd hi hstart
      · exact hmem

/-- **The search comes to a place where it stops**, and its answer is the one of that place. -/
theorem findCycle_stops {g : Digraph} (hg : g.InRange) :
    ∃ p, g.Met p ∧ g.Stops p g.findCycle := by
  refine searchFrom_stops hg Relation.ReflTransGen.refl ?_
  intro i hi
  rw [List.mem_range]
  simpa [List.getElem?_replicate] using hi

/-! ### Cycles -/

/-- A row of which each member leads to the next one, and the last to the first, comes back to
where it started. -/
theorem transGen_of_closed {α : Type} {R : α → α → Prop} {row : List α} {first last : α}
    (hchain : row.IsChain R) (hfirst : row.head? = some first)
    (hlast : row.getLast? = some last) (hclosed : R last first) :
    Relation.TransGen R last last := by
  have hne : row ≠ [] := by
    rintro rfl
    cases hfirst
  have hpath := List.relationReflTransGen_of_exists_isChain row hchain hne
  rw [(List.head_eq_iff_head?_eq_some hne).mpr hfirst,
    (List.getLast_eq_iff_getLast?_eq_some hne).mpr hlast] at hpath
  exact Relation.TransGen.head' hclosed hpath

namespace IsCycle

variable {g : Digraph} {cycle : List Nat}

theorem transGen (h : g.IsCycle cycle) : ∃ i, Relation.TransGen g.Edge i i := by
  obtain ⟨first, last, hfirst, hlast, hclosed⟩ := h.closed
  exact ⟨last, transGen_of_closed h.chain hfirst hlast hclosed⟩

/-- From every node of a cycle there is an edge. -/
theorem exists_edge (h : g.IsCycle cycle) {i : Nat} (hi : i ∈ cycle) : ∃ j, g.Edge i j := by
  obtain ⟨front, behind, rfl⟩ := List.append_of_mem hi
  cases behind with
  | nil =>
    obtain ⟨first, last, -, hlast, hclosed⟩ := h.closed
    rw [List.getLast?_concat, Option.some.injEq] at hlast
    exact ⟨first, hlast ▸ hclosed⟩
  | cons j behind => exact ⟨j, (List.isChain_append_cons_cons.mp h.chain).2.1⟩

/-- In a graph without loops a cycle has at least two nodes. -/
theorem two_le_length (h : g.IsCycle cycle) (hloop : ∀ i, ¬ g.Edge i i) :
    2 ≤ cycle.length := by
  obtain ⟨first, last, hfirst, hlast, hclosed⟩ := h.closed
  match cycle, hfirst, hlast with
  | [_], rfl, rfl => exact absurd hclosed (hloop _)
  | _ :: _ :: _, _, _ => exact Nat.le_add_left ..

end IsCycle

/-- **The search finds nothing exactly if there is no cycle.** -/
theorem findCycle_eq_none_iff {g : Digraph} (hg : g.InRange) :
    g.findCycle = none ↔ g.Acyclic := by
  refine ⟨acyclic_of_findCycle hg, fun hacyclic => ?_⟩
  cases h : g.findCycle with
  | none => rfl
  | some cycle =>
    obtain ⟨i, hi⟩ := (isCycle_of_findCycle hg h).transGen
    exact absurd hi (hacyclic i)

end DocumentRules.Digraph
