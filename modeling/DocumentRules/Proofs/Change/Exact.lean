/-
What a difference says, place by place and leaf by leaf.

Two documents share a place if both hold a map or both hold a list at every place above it.  A
difference says something about the shared places at which the documents part, about no other
place, and about each of them once:

* **`Value.mem_diff_iff`** — which changes a difference lists;
* **`Value.diff_swap`** — the difference in the other direction turns every change around;
* **`diff_exact`** — both for documents, and the order in which the changes are listed;
* **`touched_leaves_exact`** — the leaves that the changes touch are the changed leaves, and each
  of them is touched by one change.
-/
import DocumentRules.Proofs.Change.Listing

namespace DocumentRules

open Value (BothAlike diffBetween steps)

/-! ### The change at one place -/

/-- What a difference says about a place, given what is there before and after: nothing of two
values that are equal, or that are both maps or both lists. -/
inductive Mutation.Tells (p : Path) : Option Value → Option Value → Mutation → Prop where
  | added (b : Value) : Tells p none (some b) (.added p b)
  | removed (a : Value) : Tells p (some a) none (.removed p a)
  | replaced {a b : Value} (hne : a.equal b = false) (hk : Value.alike a b = false) :
      Tells p (some a) (some b) (.replaced p a b)

/-- The change in the other direction. -/
def Mutation.swap (c : Mutation) : Mutation where
  path := c.path
  op := match c.op with
    | .add => .remove
    | .remove => .add
    | .replace => .replace
  old := c.new
  new := c.old
  rule := c.rule

namespace Mutation

variable {p : Path} {a b : Option Value} {c : Mutation}

@[simp] theorem path_swap (c : Mutation) : c.swap.path = c.path := rfl

@[simp] theorem swap_swap (c : Mutation) : c.swap.swap = c := by
  obtain ⟨path, op, old, new, rule⟩ := c
  cases op <;> rfl

theorem Tells.swap (h : Tells p a b c) : Tells p b a c.swap := by
  cases h with
  | added b => exact .removed b
  | removed a => exact .added a
  | @replaced a b hne hk =>
    refine .replaced ?_ (by rwa [Value.alike_comm])
    rw [Bool.eq_false_iff] at hne ⊢
    exact fun h => hne (Value.equal_symm h)

theorem tells_swap_iff : Tells p a b c.swap ↔ Tells p b a c :=
  ⟨fun h => by simpa using h.swap, Tells.swap⟩

/-- One step further up the same is said one step further down. -/
theorem tells_under {s : Step} : Tells (s :: p) a b (c.under s) ↔ Tells p a b c := by
  constructor
  · intro h
    obtain ⟨path, op, old, new, rule⟩ := c
    generalize hm : Mutation.under s ⟨path, op, old, new, rule⟩ = m at h
    cases h with
    | added b => cases hm; exact .added b
    | removed a => cases hm; exact .removed a
    | replaced hne hk => cases hm; exact .replaced hne hk
  · intro h
    cases h with
    | added b => exact .added b
    | removed a => exact .removed a
    | replaced hne hk => exact .replaced hne hk

end Mutation

namespace Value

open Mutation (Tells)

variable {u v : Value} {a b : Option Value} {c : Mutation}

theorem bothAlike_comm : BothAlike a b ↔ BothAlike b a := by
  cases a <;> cases b <;> simp [BothAlike, alike_comm]

/-- Both values hold a map, or both hold a list, at every place above this one. -/
def SharedAbove (u v : Value) (p : Path) : Prop :=
  ∀ q, q <+: p → q ≠ p → BothAlike (get? u q) (get? v q)

theorem SharedAbove.symm {p : Path} (h : SharedAbove u v p) : SharedAbove v u p :=
  fun q hq hne => bothAlike_comm.mp (h q hq hne)

/-- What is said in one place, given what stands there: a difference between values that may be
missing. -/
def SaidBetween (a b : Option Value) (c : Mutation) : Prop :=
  (∀ q, q <+: c.path → q ≠ c.path → BothAlike (a.bind (get? · q)) (b.bind (get? · q))) ∧
    Tells c.path (a.bind (get? · c.path)) (b.bind (get? · c.path)) c

/-- Between values that are not both maps nor both lists something is said at the top only. -/
theorem saidBetween_of_not_alike (hk : ¬ BothAlike a b) :
    SaidBetween a b c ↔ Tells [] a b c := by
  constructor
  · rintro ⟨habove, htells⟩
    cases hp : c.path with
    | nil => simpa [hp] using htells
    | cons s p =>
      have := habove [] (List.nil_prefix) (by simp [hp])
      rw [bind_get?_nil, bind_get?_nil] at this
      exact absurd this hk
  · intro h
    have hp : c.path = [] := by cases h <;> rfl
    refine ⟨?_, by simpa [hp] using h⟩
    intro q hq hne
    rw [hp] at hq hne
    exact absurd (List.prefix_nil.mp hq) hne

/-- Between two maps or two lists nothing is said at the top. -/
theorem not_saidBetween_top (hk : alike u v = true) (hp : c.path = []) :
    ¬ SaidBetween (some u) (some v) c := by
  rintro ⟨-, htells⟩
  rw [hp] at htells
  cases htells with
  | replaced hne hk' =>
    rw [hk] at hk'
    cases hk'

/-- Between two maps or two lists something is said of what is said between two children. -/
theorem saidBetween_under {s : Step} (hk : alike u v = true) :
    SaidBetween (some u) (some v) (c.under s) ↔ SaidBetween (child? u s) (child? v s) c := by
  simp only [SaidBetween, Option.bind_some, Mutation.under]
  refine and_congr ?_ Mutation.tells_under
  constructor
  · intro h q hq hne
    exact h (s :: q) (List.cons_prefix_cons.mpr ⟨rfl, hq⟩) (by simpa using hne)
  · intro h q hq hne
    cases q with
    | nil => exact hk
    | cons t q =>
      obtain ⟨rfl, hprefix⟩ := List.cons_prefix_cons.mp hq
      exact h q hprefix fun heq => hne (by rw [heq])

/-! ### The changes that a difference lists -/

/-- The changes between two maps or two lists stand below them, at the places of the changes
between their children. -/
theorem mem_diff_of_alike (hu : u.WellFormed) (hv : v.WellFormed) (hk : alike u v = true) :
    c ∈ diff u v ↔ ∃ s b, b ∈ diffBetween (child? u s) (child? v s) ∧ c = b.under s := by
  rw [diff_eq_blocks hu hv hk]
  simp only [blocks, List.mem_flatMap, List.mem_map, OrderedSet.mem_toList, mem_steps hu hv]
  constructor
  · rintro ⟨s, -, b, hb, rfl⟩
    exact ⟨s, b, hb, rfl⟩
  · rintro ⟨s, b, hb, rfl⟩
    refine ⟨s, ?_, b, hb, rfl⟩
    -- Where both children are missing there is no change between them.
    cases hx : child? u s with
    | some x => exact Or.inl ⟨x, rfl⟩
    | none =>
      cases hy : child? v s with
      | some y => exact Or.inr ⟨y, rfl⟩
      | none => simp [hx, hy, diffBetween, changesBetween] at hb

/-- Between values that are not both maps nor both lists there is at most one change. -/
theorem mem_diffBetween_of_not_alike (hk : ¬ BothAlike a b) :
    c ∈ diffBetween a b ↔ Tells [] a b c := by
  match a, b with
  | none, none => exact ⟨fun h => by simp [diffBetween, changesBetween] at h, fun h => nomatch h⟩
  | none, some v =>
    simp only [diffBetween, changesBetween, List.mem_singleton]
    exact ⟨fun h => h ▸ .added v, fun h => by cases h; rfl⟩
  | some u, none =>
    simp only [diffBetween, changesBetween, List.mem_singleton]
    exact ⟨fun h => h ▸ .removed u, fun h => by cases h; rfl⟩
  | some u, some v =>
    have hk : alike u v = false := by simpa [BothAlike] using hk
    rw [diffBetween, diff_of_not_alike hk]
    cases hne : equal u v with
    | true =>
      refine ⟨fun h => by simp at h, fun h => ?_⟩
      cases h with
      | replaced hne' _ =>
        rw [hne] at hne'
        cases hne'
    | false =>
      simp only [Bool.false_eq_true, if_false, List.mem_singleton]
      exact ⟨fun h => h ▸ .replaced hne hk, fun h => by cases h; rfl⟩

theorem mem_diffBetween_iff (ha : ∀ u, a = some u → u.WellFormed)
    (hb : ∀ v, b = some v → v.WellFormed) : c ∈ diffBetween a b ↔ SaidBetween a b c := by
  -- By induction on the path of the change, one step at a time.
  obtain ⟨path, op, old, new, rule⟩ := c
  induction path generalizing a b with
  | nil =>
    by_cases hk : BothAlike a b
    · match a, b with
      | some u, some v =>
        refine iff_of_false ?_ (not_saidBetween_top hk rfl)
        rw [diffBetween, mem_diff_of_alike (ha u rfl) (hb v rfl) hk]
        rintro ⟨s, c, -, hc⟩
        cases hc
      | none, _ | some _, none => exact hk.elim
    · rw [mem_diffBetween_of_not_alike hk, saidBetween_of_not_alike hk]
  | cons s p ih =>
    by_cases hk : BothAlike a b
    · match a, b with
      | some u, some v =>
        have hunder : (⟨s :: p, op, old, new, rule⟩ : Mutation) =
            Mutation.under s ⟨p, op, old, new, rule⟩ := rfl
        have hchild := ih (a := child? u s) (b := child? v s)
          (fun _ hc => wellFormed_of_child? (ha u rfl) hc)
          (fun _ hc => wellFormed_of_child? (hb v rfl) hc)
        rw [diffBetween, mem_diff_of_alike (ha u rfl) (hb v rfl) hk, hunder,
          saidBetween_under hk, ← hchild]
        constructor
        · rintro ⟨t, c, hc, heq⟩
          obtain ⟨cpath, cop, cold, cnew, crule⟩ := c
          cases heq
          exact hc
        · intro hc
          exact ⟨s, _, hc, rfl⟩
      | none, _ | some _, none => exact hk.elim
    · rw [mem_diffBetween_of_not_alike hk, saidBetween_of_not_alike hk]

/-- **A difference lists a change exactly if it tells of a place that the values share**, what
stands there before and after. -/
theorem mem_diff_iff (hu : u.WellFormed) (hv : v.WellFormed) :
    c ∈ diff u v ↔ SharedAbove u v c.path ∧ Tells c.path (get? u c.path) (get? v c.path) c :=
  mem_diffBetween_iff (a := some u) (b := some v) (fun _ h => Option.some.inj h ▸ hu)
    fun _ h => Option.some.inj h ▸ hv

theorem nodup_of_precedes {cs : List Mutation} (h : cs.Pairwise Mutation.Precedes) : cs.Nodup := by
  refine h.imp ?_
  rintro b _ hbb rfl
  exact StrictOrder.irrefl b.path (Path.Precedes.lt hbb)

/-- **The difference in the other direction** turns every change around. -/
theorem diff_swap (hu : u.WellFormed) (hv : v.WellFormed) :
    diff v u = (diff u v).map Mutation.swap := by
  have hprecedes : ((diff u v).map Mutation.swap).Pairwise Mutation.Precedes :=
    List.pairwise_map.mpr (diff_precedes hu hv)
  have hsorted : (changes v u).Perm (diff v u) := (sortBy_perm _ _).symm
  refine diff_eq_of_perm (hsorted.trans ?_) hprecedes
  -- Both lists are in order, so that it is enough that they have the same members.
  refine (List.perm_ext_iff_of_nodup (nodup_of_precedes (diff_precedes hv hu))
    (nodup_of_precedes hprecedes)).mpr fun c => ?_
  have hswap : c ∈ (diff u v).map Mutation.swap ↔ c.swap ∈ diff u v := by
    constructor
    · intro h
      obtain ⟨b, hb, rfl⟩ := List.mem_map.mp h
      rwa [Mutation.swap_swap]
    · exact fun h => List.mem_map.mpr ⟨c.swap, h, Mutation.swap_swap c⟩
  rw [hswap, mem_diff_iff hu hv, mem_diff_iff hv hu, Mutation.path_swap, Mutation.tells_swap_iff]
  exact and_congr_left fun _ => ⟨SharedAbove.symm, SharedAbove.symm⟩

end Value

/-! ### Differences of documents -/

/-- **A difference is exact and minimal.**  Its changes ascend by their paths, and no path covers
another one; there is a change at exactly those places that are shared by both documents and at
which one of them holds nothing, or both hold values that differ and are not of one kind of
container; and the difference in the other direction is the same list with every change turned
around. -/
theorem diff_exact (d e : Document) :
    (diff d.value e.value).Pairwise
      (fun b c => b.path < c.path ∧ ¬ Path.overlaps b.path c.path = true) ∧
    (∀ c, c ∈ diff d.value e.value ↔
      (∀ q, q <+: c.path → q ≠ c.path → BothAlike (d.value.get? q) (e.value.get? q)) ∧
        c.Tells c.path (d.value.get? c.path) (e.value.get? c.path)) ∧
    diff e.value d.value = (diff d.value e.value).map Mutation.swap := by
  refine ⟨?_, fun c => ?_, Value.diff_swap d.wellFormed e.wellFormed⟩
  · exact (Value.diff_precedes d.wellFormed e.wellFormed).imp fun hbc =>
      ⟨Path.Precedes.lt hbc, Path.Precedes.not_overlaps hbc⟩
  · exact Value.mem_diff_iff d.wellFormed e.wellFormed

/-- Two paths that part have no path below them in common. -/
theorem Mutation.Precedes.not_mem_touchedLeaves {b c : Mutation} (h : b.Precedes c) {q : Path}
    (hb : q ∈ b.touchedLeaves) : q ∉ c.touchedLeaves := by
  obtain ⟨_, _, p, _, rfl⟩ := mem_touchedLeaves.mp hb
  intro hc
  obtain ⟨_, _, r, _, hq⟩ := mem_touchedLeaves.mp hc
  have hlt := (Path.Precedes.append h p r).lt
  rw [← hq] at hlt
  exact StrictOrder.irrefl _ hlt

/-- **The touched leaves are exactly the leaf-level changes.**  The changes of a difference touch
the leaves of either document that the other one does not have, or has with another value, a
container that keeps its kind apart; no leaf is touched by two of them; and some change touches a
path exactly if such a leaf stands at or below it. -/
theorem touched_leaves_exact (d e : Document) :
    (∀ q, (∃ c ∈ diff d.value e.value, q ∈ c.touchedLeaves) ↔
      (Value.LeafAt d.value q ∨ Value.LeafAt e.value q) ∧
        ¬ Mutation.sameValue (d.value.get? q) (e.value.get? q) = true ∧
        ¬ BothAlike (d.value.get? q) (e.value.get? q)) ∧
    ((diff d.value e.value).Pairwise fun b c => ∀ q ∈ b.touchedLeaves, q ∉ c.touchedLeaves) ∧
    ∀ p, (∃ c ∈ diff d.value e.value, c.touches p = true) ↔
      ∃ q, p <+: q ∧ Value.ChangedLeaf d.value e.value q := by
  have hleaf (q : Path) : (∃ c ∈ diff d.value e.value, q ∈ c.touchedLeaves) ↔
      Value.ChangedLeaf d.value e.value q := by
    rw [← mem_touchedLeaves_diff, List.mem_flatMap]
    rfl
  refine ⟨hleaf, ?_, fun p => ?_⟩
  · exact (Value.diff_precedes d.wellFormed e.wellFormed).imp fun hbc _ =>
      hbc.not_mem_touchedLeaves
  · simp only [← hleaf, Mutation.touches_iff]
    constructor
    · rintro ⟨c, hc, q, hq, hp⟩
      exact ⟨q, hp, c, hc, hq⟩
    · rintro ⟨q, hp, c, hc, hq⟩
      exact ⟨c, hc, q, hq, hp⟩

end DocumentRules
