/-
The order of the rules is the least one that the dependencies admit.

A rule is ready when all rules that feed it have been emitted.  The rules of a registry stand
in the order of their names and ids, so the smallest position among the ready ones is that of
the smallest ready rule:

* **`Registry.Reachable.ascending`** — the rules of a registry ascend by name and id;
* **`Registry.emits_least_ready`** — every rule that is emitted is ready, and the smallest of
  those that are ready;
* **`Registry.least_of_emission`** — an order emitted so precedes every other one in which
  the writers come first, rule by rule;
* **`least_order`** — all of this for the rules of a snapshot.
-/
import DocumentRules.Proofs.Dependency.Circle

namespace DocumentRules

variable {m : Type → Type}

/-! ### Rules in the order of their names and ids -/

namespace Rule

variable {r s t : Rule m}

/-- The order of rules is that of their names and ids, one after the other. -/
theorem before_iff : r.Before s ↔ [r.name, r.id] < [s.name, s.id] := by
  simp [Before, List.cons_lt_cons_iff]

theorem Before.asymm (h : r.Before s) : ¬ s.Before r := by
  rw [before_iff] at h ⊢
  exact StrictOrder.asymm h

theorem not_before_trans (hsr : ¬ s.Before r) (hts : ¬ t.Before s) : ¬ t.Before r := by
  rw [before_iff] at hsr hts ⊢
  exact StrictOrder.not_lt_trans hsr hts

theorem before_of_not_before (hname : r.name ≠ s.name) (h : ¬ s.Before r) : r.Before s := by
  rcases StrictOrder.lt_or_lt_of_ne hname with hlt | hlt
  · exact Or.inl hlt
  · exact absurd (Or.inl hlt) h

end Rule

/-- Building a registry sorts the rules of the draft. -/
theorem Draft.Compatible.build_ascending {d : Draft m} (hd : d.Compatible) :
    d.build.rules.Pairwise Rule.Before := by
  have hsorted : d.build.rules.Pairwise fun r s => (!decide (s.Before r)) = true := by
    refine sortBy_pairwise ?_ ?_ d.rules
    · intro r s h
      have hsr : s.Before r := by simpa using h
      simpa using hsr.asymm
    · intro r s t hrs hst
      have hsr : ¬ s.Before r := by simpa using hrs
      have hts : ¬ t.Before s := by simpa using hst
      simpa using Rule.not_before_trans hsr hts
  refine (hsorted.and hd.build).imp fun {r s} ⟨hrs, hcompatible⟩ => ?_
  exact Rule.before_of_not_before hcompatible.names (by simpa using hrs)

namespace Registry

variable {g : Registry m} {s : Snapshot m}

/-- **The rules of every registry that can be put together ascend** by name and id. -/
theorem Reachable.ascending (hg : g.Reachable) : g.rules.Pairwise Rule.Before := by
  cases hg with
  | empty => exact List.Pairwise.nil
  | @revise g hg ops =>
    have hedit : g.edit.Compatible := hg.compatible
    exact (hedit.performAll ops).build_ascending
  | withOverrides _ overrides hh =>
    unfold Registry.withOverrides at hh
    obtain ⟨d, hd, rfl⟩ := map_eq_ok hh
    exact (Draft.Compatible.empty.addAll hd).build_ascending

/-! ### Emission of the smallest ready rule -/

/-- All rules that feed the rule are among these. -/
def Ready (g : Registry m) (done : List (Rule m)) (r : Rule m) : Prop :=
  ∀ w, g.Feeds w r → w ∈ done

/-- The enabled rules in an order in which the writer comes before the reader. -/
structure IsSchedule (g : Registry m) (rules : List (Rule m)) : Prop where
  perm : rules.Perm g.enabledRules
  writers_first : ∀ w r, g.Feeds w r → [w, r].Sublist rules

/-- In a schedule every rule is ready when its turn comes. -/
theorem IsSchedule.ready (hg : g.rules.Pairwise Rule.Compatible) {done rest : List (Rule m)}
    {r : Rule m} (h : g.IsSchedule (done ++ r :: rest)) : g.Ready done r := by
  intro w hw
  have hnodup : (done ++ r :: rest).Nodup := h.perm.nodup_iff.mpr (ids_nodup hg).of_map
  have hrest : r ∉ rest := (List.nodup_cons.mp (List.nodup_append.mp hnodup).2.1).1
  obtain ⟨front, back, hsplit, hfront, hback⟩ :=
    List.sublist_append_iff.mp (h.writers_first w r hw)
  cases front with
  | nil =>
    -- Both would stand behind the rules that are done, and the reader only stands there once.
    rw [List.nil_append] at hsplit
    subst hsplit
    have hmem : r ∈ rest := by
      rcases List.sublist_cons_iff.mp hback with hsub | ⟨tail, htail, hsub⟩
      · exact hsub.subset (by simp)
      · cases htail
        exact hsub.subset (by simp)
    exact absurd hmem hrest
  | cons head front =>
    obtain ⟨rfl, -⟩ := List.cons.inj hsplit
    exact hfront.subset (List.mem_cons_self ..)

/-- **Emission gives the least schedule**: if the next rule is always the smallest ready one,
any other order in which every rule is ready in its turn comes later, at the first place where
the two differ. -/
theorem least_of_emission {done rest other : List (Rule m)} (hperm : rest.Perm other)
    (hleast : ∀ front r back, rest = front ++ r :: back →
      ∀ t ∈ back, g.Ready (done ++ front) t → r.Before t)
    (hready : ∀ front r back, other = front ++ r :: back → g.Ready (done ++ front) r) :
    other = rest ∨ List.Lex Rule.Before rest other := by
  induction rest generalizing done other with
  | nil => exact Or.inl (List.perm_nil.mp hperm.symm)
  | cons r rest ih =>
    cases other with
    | nil => exact absurd hperm (List.not_perm_nil_cons _ _ ∘ List.Perm.symm)
    | cons t other =>
      by_cases htr : t = r
      · -- The same rule comes first, and the rest is compared with one rule more done.
        subst htr
        have hrest := @ih (done ++ [t]) other hperm.cons_inv
          (fun front r back hsplit u hu hready' => by
            refine hleast (t :: front) r back (by rw [hsplit]; rfl) u hu ?_
            rwa [List.append_assoc] at hready')
          (fun front r back hsplit => by
            have := hready (t :: front) r back (by rw [hsplit]; rfl)
            rwa [List.append_assoc])
        rcases hrest with rfl | hlex
        · exact Or.inl rfl
        · exact Or.inr (.cons hlex)
      · -- Another rule comes first: it is ready too, so it is not the smallest.
        have hmem : t ∈ rest := by
          have := hperm.mem_iff.mpr (List.mem_cons_self (a := t) (l := other))
          exact (List.mem_cons.mp this).resolve_left htr
        have hreadyFirst : g.Ready (done ++ []) t := hready [] t other rfl
        exact Or.inr (.rel (hleast [] r rest rfl t hmem hreadyFirst))

end Registry

/-- What has been emitted before a node: its predecessors all, and nothing that leaves a
smaller node free. -/
theorem Digraph.Emits.split {g : Digraph} {done front back : List Nat} {node : Nat}
    (h : g.Emits done (front ++ node :: back)) :
    g.Free (front.reverse ++ done) node ∧
      ∀ j ∈ back, g.Free (front.reverse ++ done) j → node ≤ j := by
  induction front generalizing done with
  | nil =>
    cases h with
    | next _ _ free least rest =>
      refine ⟨free, fun j hj hfree => least j (rest.lt_size j hj) (fun hd => ?_) hfree⟩
      exact rest.not_mem_done j hj (List.mem_cons_of_mem _ hd)
  | cons first front ih =>
    cases h with
    | next _ _ _ _ rest =>
      have hrest := ih rest
      rwa [List.append_cons, ← List.reverse_cons] at hrest

namespace Registry

variable {g : Registry m} {s : Snapshot m}

/-- A position is free once the positions of all rules that feed its rule have been emitted. -/
theorem free_iff_ready (hg : g.rules.Pairwise Rule.Compatible) {done : List Nat} {j : Nat}
    {t : Rule m} (ht : g.enabledRules[j]? = some t) :
    g.edges.Free done j ↔ g.Ready (done.filterMap (g.enabledRules[·]?)) t := by
  constructor
  · intro hfree w hw
    obtain ⟨k, hk⟩ := List.getElem?_of_mem hw.writer
    have hlt : k < g.edges.size := by
      rw [Digraph.size_ofRelation]
      exact (List.getElem?_eq_some_iff.mp hk).choose
    exact List.mem_filterMap.mpr ⟨k, hfree k hlt ((edge_iff_feeds hg hk ht).mpr hw), hk⟩
  · intro hready k hk hedge
    rw [Digraph.size_ofRelation] at hk
    have hw : g.enabledRules[k]? = some g.enabledRules[k] := List.getElem?_eq_getElem hk
    obtain ⟨k', hk', hw'⟩ :=
      List.mem_filterMap.mp (hready _ ((edge_iff_feeds hg hw ht).mp hedge))
    -- A rule has one position.
    have hkk : k = k' := (List.getElem?_inj hk (ids_nodup hg).of_map).mp (hw.trans hw'.symm)
    exact hkk ▸ hk'

/-- Where a rule stands in the order of a snapshot: the positions in front of its own are those
of the rules in front of it, and likewise behind it. -/
theorem exists_position (hg : g.rules.Pairwise Rule.Compatible)
    (hs : Snapshot.ofRegistry g = .ok s) {emitted rest : List (Rule m)} {r : Rule m}
    (h : s.orderedRules = emitted ++ r :: rest) :
    ∃ front i back, s.graph.order = front ++ i :: back ∧ g.enabledRules[i]? = some r ∧
      front.filterMap (g.enabledRules[·]?) = emitted ∧
      back.filterMap (g.enabledRules[·]?) = rest := by
  rw [orderedRules_eq hg hs] at h
  obtain ⟨front, back, horder, hfront, hback⟩ := List.filterMap_eq_append_iff.mp h
  obtain ⟨gap, i, tail, rfl, hgap, hr, htail⟩ := List.filterMap_eq_cons_iff.mp hback
  refine ⟨front ++ gap, i, tail, ?_, hr, ?_, htail⟩
  · rw [horder, List.append_assoc]
  · rw [List.filterMap_append, hfront, List.filterMap_eq_nil_iff.mpr hgap, List.append_nil]

/-- **Every rule that is emitted is ready**, and it is the smallest one that is. -/
theorem emits_least_ready (hg : g.Reachable) (hs : Snapshot.ofRegistry g = .ok s)
    {emitted rest : List (Rule m)} {r : Rule m} (h : s.orderedRules = emitted ++ r :: rest) :
    g.Ready emitted r ∧ ∀ t ∈ rest, g.Ready emitted t → r.Before t := by
  obtain ⟨-, hedges, -, hemits⟩ :=
    DependencyGraph.build_eq_ok (Snapshot.ofRegistry_eq_ok hs).2
  obtain ⟨front, i, back, horder, hr, hfront, hback⟩ := exists_position hg.compatible hs h
  rw [hedges, horder] at hemits
  obtain ⟨hfree, hleast⟩ := hemits.split
  -- What has been emitted is the same in either direction.
  have hready {j : Nat} {t : Rule m} (ht : g.enabledRules[j]? = some t) :
      g.edges.Free (front.reverse ++ []) j ↔ g.Ready emitted t := by
    rw [free_iff_ready hg.compatible ht, List.append_nil, List.filterMap_reverse, hfront]
    simp only [Ready, List.mem_reverse]
  refine ⟨(hready hr).mp hfree, fun t ht htready => ?_⟩
  obtain ⟨j, hj, hjt⟩ := List.mem_filterMap.mp (hback ▸ ht)
  have hle : i ≤ j := hleast j hj ((hready hjt).mpr htready)
  have hne : i ≠ j := by
    have hnodup := (List.nodup_append.mp hemits.nodup).2.1
    rintro rfl
    exact (List.nodup_cons.mp hnodup).1 hj
  -- The enabled rules ascend, so the smaller position is that of the smaller rule.
  have hascending : g.enabledRules.Pairwise Rule.Before := hg.ascending.filter _
  obtain ⟨hi, rfl⟩ := List.getElem?_eq_some_iff.mp hr
  obtain ⟨hj', rfl⟩ := List.getElem?_eq_some_iff.mp hjt
  exact List.pairwise_iff_getElem.mp hascending i j hi hj' (Nat.lt_of_le_of_ne hle hne)

/-! ### The order of a snapshot -/

theorem orderedRules_perm (hg : g.rules.Pairwise Rule.Compatible)
    (hs : Snapshot.ofRegistry g = .ok s) : s.orderedRules.Perm g.enabledRules := by
  have hnodup : s.orderedRules.Nodup :=
    (orderedRules_pairwise hg hs).imp fun ⟨_, hcompatible⟩ e => hcompatible.ids (e ▸ rfl)
  exact (List.perm_ext_iff_of_nodup hnodup (ids_nodup hg).of_map).mpr fun _ =>
    mem_orderedRules_iff hg hs

/-- **The order of a snapshot is a schedule.** -/
theorem orderedRules_isSchedule (hg : g.Reachable) (hs : Snapshot.ofRegistry g = .ok s) :
    g.IsSchedule s.orderedRules where
  perm := orderedRules_perm hg.compatible hs
  writers_first w r hwr := by
    have hmem : r ∈ s.orderedRules := (mem_orderedRules_iff hg.compatible hs).mpr hwr.reader
    obtain ⟨emitted, rest, hsplit⟩ := List.append_of_mem hmem
    have hw : w ∈ emitted := (emits_least_ready hg hs hsplit).1 w hwr
    rw [hsplit]
    exact (List.singleton_sublist.mpr hw).append (List.singleton_sublist.mpr (by simp))

/-- **No schedule comes before the order of a snapshot.** -/
theorem orderedRules_least (hg : g.Reachable) (hs : Snapshot.ofRegistry g = .ok s)
    {rules : List (Rule m)} (hrules : g.IsSchedule rules) :
    rules = s.orderedRules ∨ List.Lex Rule.Before s.orderedRules rules := by
  have hperm : s.orderedRules.Perm rules :=
    (orderedRules_perm hg.compatible hs).trans hrules.perm.symm
  refine @least_of_emission _ g [] _ _ hperm ?_ ?_
  · intro front r back hsplit
    exact (emits_least_ready hg hs hsplit).2
  · rintro front r back rfl
    exact hrules.ready hg.compatible

/-- The ids in the order of the graph are those of the rules. -/
theorem orderedIds_eq (hg : g.rules.Pairwise Rule.Compatible)
    (hs : Snapshot.ofRegistry g = .ok s) :
    s.graph.orderedIds = s.orderedRules.map (·.id) := by
  obtain ⟨hids, -, -, -⟩ := DependencyGraph.build_eq_ok (Snapshot.ofRegistry_eq_ok hs).2
  rw [orderedRules_eq hg hs, DependencyGraph.orderedIds, DependencyGraph.idsOf, hids,
    List.map_filterMap]
  simp only [List.getElem?_map]

end Registry

/-- The order of a graph that can be built is found: no counter falls below zero. -/
theorem DependencyGraph.order?_eq_some {g : Registry m} {graph : DependencyGraph}
    (h : DependencyGraph.build g = .ok graph) : graph.edges.order? = some graph.order := by
  unfold build at h
  simp only at h
  split at h
  · cases h
  · cases h
    obtain ⟨order, horder, -⟩ :=
      Digraph.order?_emits (Digraph.inRange_ofRelation Rule.feeds g.enabledRules)
    simp only [horder, Option.getD_some]

/-- **The rules run in the least order that their dependencies admit.**  The order of the graph
and the rules looked up by it again are the same; they are all enabled rules, each once, every
writer before the rules that it feeds; any other such order comes later by name and id at the
first place where the two differ; every rule is the smallest of those that are ready in its
turn; and no counter falls below zero. -/
theorem least_order {g : Registry m} {s : Snapshot m} (hg : g.Reachable)
    (hs : Snapshot.ofRegistry g = .ok s) :
    s.graph.orderedIds = s.orderedRules.map (·.id) ∧
      g.IsSchedule s.orderedRules ∧
      (∀ rules, g.IsSchedule rules →
        rules = s.orderedRules ∨ List.Lex Rule.Before s.orderedRules rules) ∧
      (∀ emitted r rest, s.orderedRules = emitted ++ r :: rest →
        g.Ready emitted r ∧ ∀ t ∈ rest, g.Ready emitted t → r.Before t) ∧
      s.graph.edges.order? = some s.graph.order := by
  refine ⟨Registry.orderedIds_eq hg.compatible hs, Registry.orderedRules_isSchedule hg hs, ?_,
    ?_, DependencyGraph.order?_eq_some (Snapshot.ofRegistry_eq_ok hs).2⟩
  · intro rules hrules
    exact Registry.orderedRules_least hg hs hrules
  · intro emitted r rest hsplit
    exact Registry.emits_least_ready hg hs hsplit

/-! ### Three rules, of which one feeds another -/

namespace Fed

open Mutual (linking)

/-- The rule `b` writes what `a` reads. -/
def registry : Registry Id :=
  (Registry.empty.edit.performAll
    [.add (linking "c" "u" "v"), .add (linking "b" "x" "y"), .add (linking "a" "y" "z")]).build

def snapshot : Snapshot Id := ⟨registry, ⟨["a", "b", "c"], ⟨[[], [0], []]⟩, [1, 0, 2]⟩⟩

theorem reachable : registry.Reachable := .revise .empty _

theorem ofRegistry_eq : Snapshot.ofRegistry registry = .ok snapshot :=
  Snapshot.ofRegistry_of_findCycle ⟨[[], [0], []]⟩ rfl (by cbv) (by decide +kernel)

end Fed

open Fed in
/-- Without the dependency `a` would run first; `c` is ready from the start and yet runs last. -/
theorem least_order_fed :
    snapshot.orderedRules.map (·.id) = ["b", "a", "c"] ∧
      registry.IsSchedule snapshot.orderedRules ∧
      snapshot.graph.edges.order? = some [1, 0, 2] := by
  obtain ⟨hids, hschedule, -, -, horder⟩ := least_order reachable ofRegistry_eq
  exact ⟨hids.symm, hschedule, horder⟩

end DocumentRules
