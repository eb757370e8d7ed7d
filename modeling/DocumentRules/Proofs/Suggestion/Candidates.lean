/-
What the static candidates hold.

The static strategy sets the declared reads one after another, in the order of their paths, and
leaves out each of them once.  Whether a field stands in such a document is a matter of the paths
alone.  A path brings a value to itself, to every path on its way and, by filling up a list, to the
positions in front of its own.  What is lost again is what stands below a key where another path
takes an index: names come before positions, so that the list comes last.

* **`Value.has_set`** — what is there after one assignment;
* **`has_documentOf`** — what is there after ascending assignments;
* **`static_candidates_hold`** — which declared reads each of the static candidates holds.

A read that is left out is there nevertheless if another one brings a value to it, as one below it
does, or one that comes behind it in its list.
-/
import DocumentRules.Proofs.Document.Assignment
import DocumentRules.Proofs.Document.PathOrder
import DocumentRules.Suggestion.Strategy
import Mathlib.Data.List.Induction

namespace DocumentRules

namespace Step

@[simp] theorem sameKind_self (s : Step) : s.sameKind s = true := by
  cases s <;> rfl

/-- Of two steps of different kinds the key comes first. -/
theorem key_index_of_not_sameKind {s t : Step} (h : s.sameKind t = false) :
    (∃ k i, s = .key k ∧ t = .index i) ∨ ∃ k i, s = .index i ∧ t = .key k := by
  cases s <;> cases t <;> simp_all [sameKind]

end Step

namespace Path

variable {p p' q r : Path} {s t : Step}

/-- A scalar at the first path brings a value to the second one, which lies on its way or is a
position in front of its own. -/
def Brings (p q : Path) : Prop := q <+: p ∨ Value.InFront p q

/-- The paths part at a step that one takes by a key and the other one by an index. -/
def Clashes (p q : Path) : Prop :=
  ∃ r s t, r ++ [s] <+: p ∧ r ++ [t] <+: q ∧ s.sameKind t = false

/-- The first path takes an index where the second one takes a key. -/
def Displaces (p q : Path) : Prop :=
  ∃ r k i, r ++ [.key k] <+: q ∧ r ++ [.index i] <+: p

theorem Displaces.clashes (h : Displaces p q) : Clashes p q := by
  obtain ⟨r, k, i, hq, hp⟩ := h
  exact ⟨r, .index i, .key k, hp, hq, rfl⟩

/-- Two paths part at one step only. -/
theorem part_unique {r r' : Path} {s t u w : Step} (hst : s ≠ t) (huw : u ≠ w)
    (hu : r' ++ [u] <+: r ++ s :: p) (hw : r' ++ [w] <+: r ++ t :: q) :
    r' = r ∧ u = s ∧ w = t := by
  induction r generalizing r' with
  | nil =>
    cases r' with
    | nil => exact ⟨rfl, by simpa using hu, by simpa using hw⟩
    | cons x r' =>
      simp only [List.cons_append, List.nil_append, List.cons_prefix_cons] at hu hw
      exact absurd (hu.1.symm.trans hw.1) hst
  | cons a r ih =>
    cases r' with
    | nil =>
      simp only [List.cons_append, List.nil_append, List.cons_prefix_cons] at hu hw
      exact absurd (hu.1.trans hw.1.symm) huw
    | cons x r' =>
      simp only [List.cons_append, List.cons_prefix_cons] at hu hw
      obtain ⟨rfl, hsteps⟩ := ih hu.2 hw.2
      exact ⟨by rw [hu.1], hsteps⟩

/-- Below itself a path brings nothing. -/
theorem brings_append : Brings p (p ++ q) ↔ q = [] := by
  constructor
  · rintro (hinitial | ⟨r, i, j, hr, heq, -⟩)
    · have := hinitial.length_le
      rw [List.length_append] at this
      exact List.length_eq_zero_iff.mp (by omega)
    · have hlength := congrArg List.length heq
      have := hr.length_le
      simp only [List.length_append, List.length_singleton] at hlength this
      exact List.length_eq_zero_iff.mp (by omega)
  · rintro rfl
    exact Or.inl (by simp)

/-- Where two paths part, the steps decide whether one brings a value to the other one. -/
theorem brings_part (hst : s ≠ t) :
    Brings (r ++ s :: p) (r ++ t :: q) ↔ q = [] ∧ t.InFront s := by
  constructor
  · rintro (hinitial | ⟨r', i, j, hi, heq, hlt⟩)
    · simp [List.prefix_append_right_inj, hst.symm] at hinitial
    · have hij : Step.index i ≠ .index j := by
        rintro ⟨⟩
        exact Nat.lt_irrefl _ hlt
      have hj : r' ++ [.index j] <+: r ++ t :: q := heq ▸ List.prefix_refl _
      obtain ⟨rfl, rfl, rfl⟩ := part_unique hst hij hi hj
      exact ⟨by simpa using heq, hlt⟩
  · rintro ⟨rfl, hfront⟩
    match s, t, hfront with
    | .index i, .index j, hlt => exact Or.inr ⟨r, i, j, by simp, rfl, hlt⟩

theorem clashes_part (hst : s ≠ t) :
    Clashes (r ++ s :: p) (r ++ t :: q) ↔ s.sameKind t = false := by
  constructor
  · rintro ⟨r', u, w, hu, hw, hkind⟩
    have huw : u ≠ w := by
      rintro rfl
      simp at hkind
    obtain ⟨-, rfl, rfl⟩ := part_unique hst huw hu hw
    exact hkind
  · exact fun hkind => ⟨r, s, t, by simp, by simp, hkind⟩

/-! ### The order of the paths -/

theorem not_lt_of_initial (h : p <+: q) : ¬ q < p := by
  induction p generalizing q with
  | nil => exact List.not_lt_nil q
  | cons s p ih =>
    obtain ⟨rest, rfl⟩ := h
    rw [List.cons_append, List.cons_lt_cons_iff]
    rintro (hlt | ⟨-, hlt⟩)
    · exact StrictOrder.irrefl s hlt
    · exact ih (List.prefix_append ..) hlt

theorem lt_of_part (hst : s < t) (hp : r ++ [s] <+: p) (hq : r ++ [t] <+: q) : p < q := by
  obtain ⟨a, rfl⟩ := hp
  obtain ⟨b, rfl⟩ := hq
  exact (((Precedes.head hst [] []).append_left r).append a b).lt

/-- A path that brings a value takes a step of the same kind wherever the value's path takes one. -/
theorem Brings.step (h : Brings p q) (hr : r ++ [t] <+: q) :
    ∃ u, r ++ [u] <+: p ∧ u.sameKind t = true := by
  rcases h with hqp | ⟨r', i, j, hp, rfl, -⟩
  · exact ⟨t, hr.trans hqp, t.sameKind_self⟩
  · rcases List.prefix_concat_iff.mp hr with heq | hr
    · obtain ⟨rfl, hj⟩ := List.append_inj' heq rfl
      obtain rfl : t = .index j := by simpa using hj
      exact ⟨.index i, hp, rfl⟩
    · exact ⟨t, hr.trans ((List.prefix_append ..).trans hp), t.sameKind_self⟩

/-- What a path brings is not displaced by itself or an earlier one. -/
theorem Brings.not_displaces (h : Brings p q) (hp : ¬ p < p') : ¬ Displaces p' q := by
  rintro ⟨r, k, i, hq, hp'⟩
  obtain ⟨u, hu, hkind⟩ := h.step hq
  cases u with
  | key l => exact hp (lt_of_part Step.key_lt_index hu hp')
  | index j => cases hkind

/-- Of the later paths that clash with what a path has brought, all displace it. -/
theorem Brings.displaces (h : Brings p q) (hp : p < p') (hclash : Clashes p' q) :
    Displaces p' q := by
  obtain ⟨r, s, t, hp', hq, hkind⟩ := hclash
  rcases Step.key_index_of_not_sameKind hkind with ⟨k, i, rfl, rfl⟩ | ⟨k, i, rfl, rfl⟩
  · obtain ⟨u, hu, hkind⟩ := h.step hq
    cases u with
    | key l => cases hkind
    | index j => exact absurd (lt_of_part Step.key_lt_index hp' hu) (StrictOrder.asymm hp)
  · exact ⟨r, k, i, hq, hp'⟩

/-- A later path does not stand on the way to what a path has brought. -/
theorem Brings.prefix_eq (h : Brings p q) (hp : p < p') (hinitial : p' <+: q) : p' = q := by
  obtain ⟨rest, rfl⟩ := hinitial
  cases rest with
  | nil => exact (List.append_nil p').symm
  | cons t rest =>
    obtain ⟨u, hu, -⟩ := h.step (r := p') (t := t) (by simp)
    exact absurd hp (not_lt_of_initial ((List.prefix_append ..).trans hu))

/-- What stands in a document after scalars have been set at these paths, in ascending order. -/
def Built (ps : List Path) (q : Path) : Prop :=
  q = [] ∨ ((∃ p ∈ ps, Brings p q) ∧ ∀ p ∈ ps, ¬ Displaces p q)

end Path

/-! ### Assignments -/

namespace Value

theorem has_append (d : Value) (p q : Path) :
    has d (p ++ q) = true ↔ ∃ c, get? d p = some c ∧ has c q = true := by
  rw [has, get?_append, Option.isSome_bind]
  cases get? d p <;> simp [has]

theorem has_of_isLeaf {v : Value} (hv : v.isLeaf = true) {q : Path} :
    has v q = true ↔ q = [] := by
  cases q with
  | nil => exact iff_of_true rfl rfl
  | cons s q => simp [has, get?_cons, child?_of_isLeaf hv]

/-- **What is there after one assignment of a leaf**: what the path brings, and what was there
before, except below the path and where the two paths clash. -/
theorem has_set {v : Value} (hv : v.isLeaf = true) (d : Value) (p q : Path) :
    has (set d p v) q = true ↔
      Path.Brings p q ∨ (has d q = true ∧ ¬ p <+: q ∧ ¬ Path.Clashes p q) := by
  rcases Path.parts p q with ⟨rest, rfl⟩ | ⟨s, r, rfl⟩ | ⟨r, s, t, p', q', hne, rfl, rfl⟩
  · -- At the path and below it there is nothing but the leaf.
    rw [Path.brings_append, has_append, get?_set_self]
    simp [has_of_isLeaf hv]
  · refine iff_of_true ?_ (Or.inl (Or.inl (List.prefix_append ..)))
    rw [has, get?_set_append]
    rfl
  · have happart : ¬ r ++ s :: p' <+: r ++ t :: q' := by
      simp [List.prefix_append_right_inj, hne]
    rw [Path.brings_part hne, Path.clashes_part hne, has, has, get?_set_beside_eq hne]
    cases s <;> cases t <;> simp only [besideSet, Step.sameKind, Step.InFront, happart]
    case index.index i j =>
      -- Two positions of one list: the old value stays, or else the list may be filled up.
      rw [Option.isSome_or, Bool.or_eq_true, or_comm]
      split <;> simp [*]
    all_goals simp

end Value

namespace Document

theorem has_emptyMap {q : Path} : emptyMap.has q = true ↔ q = [] :=
  Value.has_of_isLeaf rfl

theorem has_set {d v : Document} (hv : v.value.isLeaf = true) (p q : Path) :
    (d.set p v).has q = true ↔
      Path.Brings p q ∨ (d.has q = true ∧ ¬ p <+: q ∧ ¬ Path.Clashes p q) :=
  Value.has_set hv d.value p q

end Document

theorem documentOf_append_singleton (fields : List (Path × Document)) (f : Path × Document) :
    documentOf (fields ++ [f]) = (documentOf fields).set f.1 f.2 := by
  rw [documentOf, List.foldl_append]
  rfl

/-- **What is there after ascending assignments of leaves.** -/
theorem has_documentOf {fields : List (Path × Document)}
    (hascending : (fields.map (·.1)).Pairwise (· < ·))
    (hleaves : ∀ f ∈ fields, f.2.value.isLeaf = true) (q : Path) :
    (documentOf fields).has q = true ↔ Path.Built (fields.map (·.1)) q := by
  -- The last assignment is made to what the others have built.
  induction fields using List.reverseRecOn with
  | nil =>
    rw [show documentOf [] = .emptyMap from rfl, Document.has_emptyMap]
    simp [Path.Built]
  | append_singleton fields f ih =>
    obtain ⟨p, v⟩ := f
    rw [List.map_append, List.map_singleton, List.pairwise_append] at hascending
    have hbefore : ∀ p₀ ∈ fields.map (·.1), p₀ < p :=
      fun p₀ hp₀ => hascending.2.2 p₀ hp₀ p (List.mem_singleton_self p)
    have ih := ih hascending.1 fun f hf => hleaves f (List.mem_append_left _ hf)
    have hv : v.value.isLeaf = true := hleaves (p, v) (by simp)
    rw [documentOf_append_singleton, Document.has_set hv, ih, List.map_append, List.map_singleton]
    by_cases hbrings : Path.Brings p q
    · -- The last path brings the value itself.
      refine iff_of_true (Or.inl hbrings) (Or.inr ⟨⟨p, by simp, hbrings⟩, ?_⟩)
      refine List.forall_mem_append.mpr ⟨fun p₀ hp₀ => ?_, fun p' hp' => ?_⟩
      · exact hbrings.not_displaces (StrictOrder.asymm (hbefore p₀ hp₀))
      · rw [List.mem_singleton.mp hp']
        exact hbrings.not_displaces (StrictOrder.irrefl p)
    · have hroot : q ≠ [] := by
        rintro rfl
        exact hbrings (Or.inl (List.nil_prefix ..))
      simp only [Path.Built, hbrings, hroot, false_or, List.mem_append, List.mem_singleton,
        or_and_right, exists_or, exists_eq_left, or_false, or_imp, forall_and, forall_eq]
      constructor
      · rintro ⟨⟨hbuilt, hkept⟩, -, hclash⟩
        exact ⟨hbuilt, hkept, fun h => hclash h.clashes⟩
      · rintro ⟨⟨p₀, hp₀, hbuilt⟩, hkept, hlast⟩
        refine ⟨⟨⟨p₀, hp₀, hbuilt⟩, hkept⟩, fun hinitial => ?_, fun hclash => ?_⟩
        · have heq := hbuilt.prefix_eq (hbefore p₀ hp₀) hinitial
          exact hbrings (Or.inl (heq ▸ List.prefix_refl p))
        · exact hlast (hbuilt.displaces (hbefore p₀ hp₀) hclash)

/-! ### The static candidates -/

section Candidates

variable {m : Type → Type} {r : Rule m}

theorem Rule.mem_readFields {p : Path} : p ∈ r.readFields ↔ p ∈ r.reads ∧ p ≠ [] := by
  simp [readFields, OrderedSet.mem_toList]

theorem Rule.readFields_ascending : r.readFields.Pairwise (· < ·) :=
  r.reads.ascending.sublist List.filter_sublist

theorem Rule.map_fst_representatives (hints : FieldHints) :
    (r.representatives hints).map (·.1) = r.readFields := by
  simp [representatives, Function.comp_def]

theorem isLeaf_representatives {hints : FieldHints} :
    ∀ f ∈ r.representatives hints, f.2.value.isLeaf = true := by
  refine List.forall_mem_map.mpr fun p _ => ?_
  cases FieldKind.ofPath hints p <;> rfl

theorem has_representatives (hints : FieldHints) (q : Path) :
    (documentOf (r.representatives hints)).has q = true ↔ Path.Built r.readFields q := by
  have hascending := r.map_fst_representatives hints ▸ r.readFields_ascending
  rw [has_documentOf hascending isLeaf_representatives, r.map_fst_representatives]

theorem has_without (hints : FieldHints) (field q : Path) :
    (Strategy.without (r.representatives hints) field).has q = true ↔
      Path.Built (r.readFields.filter (· != field)) q := by
  have hpaths : ((r.representatives hints).filter (·.1 != field)).map (·.1) =
      r.readFields.filter (· != field) := by
    rw [← r.map_fst_representatives hints, List.filter_map]
    rfl
  have hascending := hpaths ▸ r.readFields_ascending.sublist List.filter_sublist
  rw [Strategy.without, has_documentOf hascending
    (fun f hf => isLeaf_representatives f (List.mem_of_mem_filter hf)), hpaths]

/-- A path that is set is there unless it is displaced. -/
theorem Path.built_of_mem {ps : List Path} {q : Path} (hq : q ∈ ps) :
    Built ps q ↔ ∀ p ∈ ps, ¬ Displaces p q := by
  constructor
  · rintro (rfl | ⟨-, hkept⟩)
    · rintro p - ⟨r, k, i, hroot, -⟩
      simp at hroot
    · exact hkept
  · exact fun hkept => Or.inr ⟨⟨q, hq, Or.inl (List.prefix_refl q)⟩, hkept⟩

/-- **Which declared reads the static candidates hold.**  The first one holds every read that no
other one displaces, by an index where the read has a key.  Then there is one candidate for each
read below the root, which says that this read is left missing.  The read is there all the same
exactly if another one brings a value to it, being below it or behind it in its list, and none
displaces it; and of the other reads those are there that none of them displaces. -/
theorem static_candidates_hold (c : SuggestConfig) (r : Rule m) (target : Path) :
    ∃ full leftOut, Strategy.staticCandidates c r target = full :: leftOut ∧
      (∀ q ∈ r.readFields,
        (full.input.has q = true ↔ ∀ p ∈ r.readFields, ¬ p.Displaces q)) ∧
      List.Forall₂ (fun field x =>
        x.reason = Strategy.reasonFor r target
          ("declared read " ++ Path.text field ++ " left missing") ∧
        (x.input.has field = true ↔
          (∃ p ∈ r.readFields, p ≠ field ∧ p.Brings field) ∧
            ∀ p ∈ r.readFields, p ≠ field → ¬ p.Displaces field) ∧
        ∀ q ∈ r.readFields, q ≠ field →
          (x.input.has q = true ↔ ∀ p ∈ r.readFields, p ≠ field → ¬ p.Displaces q))
        r.readFields leftOut := by
  refine ⟨_, _, rfl, fun q hq => ?_, ?_⟩
  · rw [has_representatives, Path.built_of_mem hq]
  · rw [List.forall₂_map_right_iff, List.forall₂_same]
    intro field hfield
    refine ⟨rfl, ?_, fun q hq hne => ?_⟩
    · have hroot : field ≠ [] := (Rule.mem_readFields.mp hfield).2
      rw [has_without, Path.Built, or_iff_right hroot]
      simp [and_assoc]
    · rw [has_without, Path.built_of_mem (by simp [hq, hne])]
      simp

end Candidates

/-! ### Two reads, one below the other -/

namespace Nested

/-- A rule that reads a field and another one below it. -/
def rule : Rule Id where
  id := "r"
  name := "r"
  version := defaultVersion
  builtIn := false
  enabled := true
  body := .native "r" .ok
  reads := .ofList [[.key "a"], [.key "a", .key "b"]]
  writes := .ofList [[.key "t"]]
  description := none
  updatedAt := none
  codeHash := ""

end Nested

/-- The candidate that is to leave out the upper one holds it, as the way to the lower one. -/
theorem left_out_read_present :
    ((Strategy.staticCandidates {} Nested.rule [.key "t"])[1]?.map fun x =>
      (x.reason, x.input.has [.key "a"])) =
      some ("Rule r writes t: declared read a left missing", true) := by
  decide +kernel

end DocumentRules
