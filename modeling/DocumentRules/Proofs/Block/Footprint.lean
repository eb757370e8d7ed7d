/-
Where a block rule changes a document.

A run of blocks is a row of assignments at the paths that the blocks write.  That does not
confine its changes to those paths: a value that stands in the way of an assignment is
replaced, and lists are padded.  These are the only ways out:

* **`BlockRule.run_eq`**, **`BlockRule.field_mem_writes`** — a run is a row of assignments at
  inferred writes;
* **`Breach`** — a change outside a set of writes, and how it came about;
* **`changedLeaf_iff_breach`** — the changed leaves that no write covers are the breaches.
-/
import DocumentRules.Block.Rule
import DocumentRules.Proofs.Change.Agreement
import DocumentRules.Proofs.Document.Assignment

namespace DocumentRules

open Block (Assignment)
open Value (ChangedLeaf LeafAt Obstructs InFront get? alike)

/-- The document after assignments one after another. -/
def Document.assignAll (d : Document) (as : List Assignment) : Document := as.foldl assign d

theorem Document.assignAll_cons (d : Document) (a : Assignment) (as : List Assignment) :
    d.assignAll (a :: as) = (d.assign a).assignAll as := rfl

/-! ### A run of blocks is a row of assignments -/

/-- What a block assigns is a field that it writes. -/
theorem Block.field_mem_writes {b : Block} {regex : Option Regex} {d : Document} {a : Assignment}
    (h : b.effect regex d = .ok (some a)) : a.field ∈ b.writes := by
  cases b with
  | set field value =>
    cases h
    exact List.mem_singleton_self _
  | copy field target =>
    simp only [effect, Except.ok.injEq, Option.map_eq_some_iff] at h
    obtain ⟨v, -, rfl⟩ := h
    exact List.mem_singleton_self _
  | upper field | lower field | trim field =>
    simp only [effect, mapText, Except.ok.injEq, Option.map_eq_some_iff] at h
    obtain ⟨s, -, rfl⟩ := h
    exact List.mem_singleton_self _
  | normalize field kind =>
    simp only [effect] at h
    split at h
    · cases h
    · split at h
      · cases h
        exact List.mem_singleton_self _
      · cases h
  | extract field pattern target group =>
    simp only [effect, Except.ok.injEq, Option.bind_eq_bind, Option.bind_eq_some_iff] at h
    obtain ⟨s, -, r, -, captured, -, ha⟩ := h
    cases ha
    exact List.mem_singleton_self _
  | assert field message =>
    simp only [effect] at h
    split at h <;> cases h

namespace BlockRule

/-- The assignments that blocks make one after another, or the first failure. -/
def stepAssignments : List (Block × Option Regex) → Document → Except Failure (List Assignment)
  | [], _ => .ok []
  | (b, regex) :: steps, d =>
    match b.effect regex d with
    | .error e => .error e
    | .ok none => stepAssignments steps d
    | .ok (some a) => (stepAssignments steps (d.assign a)).map (a :: ·)

/-- The assignments that the rule makes, or the first failure. -/
def assignments (b : BlockRule) (d : Document) : Except Failure (List Assignment) :=
  stepAssignments b.steps d

theorem runSteps_eq (steps : List (Block × Option Regex)) (d : Document) :
    runSteps steps d = (stepAssignments steps d).map d.assignAll := by
  induction steps generalizing d with
  | nil => rfl
  | cons step steps ih =>
    obtain ⟨b, regex⟩ := step
    rw [runSteps, stepAssignments]
    cases b.effect regex d with
    | error failure => rfl
    | ok o =>
      cases o with
      | none => exact ih d
      | some a =>
        show runSteps steps (d.assign a) =
          ((stepAssignments steps (d.assign a)).map (a :: ·)).map d.assignAll
        rw [ih (d.assign a)]
        cases stepAssignments steps (d.assign a) <;> rfl

/-- **A run of blocks is a row of assignments.** -/
theorem run_eq (b : BlockRule) (d : Document) : b.run d = (b.assignments d).map d.assignAll :=
  runSteps_eq b.steps d

theorem field_mem_of_stepAssignments {steps : List (Block × Option Regex)} {d : Document}
    {as : List Assignment} (h : stepAssignments steps d = .ok as) :
    ∀ a ∈ as, ∃ step ∈ steps, a.field ∈ step.1.writes := by
  induction steps generalizing d as with
  | nil =>
    cases h
    simp
  | cons step steps ih =>
    obtain ⟨b, regex⟩ := step
    have hrest {e : Document} {bs : List Assignment} (hbs : stepAssignments steps e = .ok bs)
        (a : Assignment) (ha : a ∈ bs) : ∃ step ∈ (b, regex) :: steps, a.field ∈ step.1.writes := by
      obtain ⟨step, hstep, hfield⟩ := ih hbs a ha
      exact ⟨step, List.mem_cons_of_mem _ hstep, hfield⟩
    unfold stepAssignments at h
    split at h
    · cases h
    · exact hrest h
    · rename_i a heffect
      cases hbs : stepAssignments steps (d.assign a) with
      | error failure =>
        rw [hbs] at h
        cases h
      | ok bs =>
        rw [hbs] at h
        cases h
        intro a' ha'
        rcases List.mem_cons.mp ha' with rfl | ha'
        · exact ⟨(b, regex), List.mem_cons_self .., Block.field_mem_writes heffect⟩
        · exact hrest hbs a' ha'

/-- **All assignments of a rule are at inferred writes.** -/
theorem field_mem_writes {b : BlockRule} {d : Document} {as : List Assignment}
    (h : b.assignments d = .ok as) : ∀ a ∈ as, a.field ∈ b.writes := by
  intro a ha
  obtain ⟨step, hstep, hfield⟩ := field_mem_of_stepAssignments h a ha
  rw [writes, OrderedSet.mem_ofList, blocks, List.mem_flatMap]
  exact ⟨step.1, List.mem_map_of_mem hstep, hfield⟩

/-- **A run of blocks is a row of assignments at inferred writes.** -/
theorem run_assigns {b : BlockRule} {d e : Document} (h : b.run d = .ok e) :
    ∃ as : List Assignment, (∀ a ∈ as, a.field ∈ b.writes) ∧ e = d.assignAll as := by
  rw [run_eq] at h
  cases has : b.assignments d with
  | error failure =>
    rw [has] at h
    cases h
  | ok as =>
    rw [has] at h
    cases h
    exact ⟨as, field_mem_writes has, rfl⟩

end BlockRule

/-! ### What a row of assignments keeps and brings -/

section Row

variable {as : List Assignment} {d : Document} {q : Path}

/-- A value persists through assignments that do not cover it, if none meets a value in its way
on the way to it. -/
theorem get?_assignAll {c : Value} (hcover : ∀ a ∈ as, ¬ a.field <+: q)
    (hopen : ∀ a ∈ as, ∀ r, r <+: q → ¬ Obstructs d.value a.field r)
    (hc : get? d.value q = some c) :
    ∃ c', get? (d.assignAll as).value q = some c' ∧ c.Persists c' := by
  induction as generalizing d c with
  | nil => exact ⟨c, hc, Or.inl rfl⟩
  | cons a as ih =>
    have ha := List.mem_cons_self (a := a) (l := as)
    -- The first assignment keeps all that stands on the way to the value.
    have hkeeps (r : Path) (hr : r <+: q) (b : Value) (hb : get? d.value r = some b) :
        ∃ b', get? (d.assign a).value r = some b' ∧ b.Persists b' :=
      Value.get?_set_of_open (fun hp => hcover a ha (hp.trans hr)) hb
        fun r' hr' => hopen a ha r' (hr'.trans hr)
    obtain ⟨b, hb, hcb⟩ := hkeeps q (List.prefix_refl q) c hc
    obtain ⟨c', hc', hbc⟩ := ih (d := d.assign a)
      (fun a' ha' => hcover a' (List.mem_cons_of_mem _ ha'))
      (fun a' ha' r hr => by
        rintro ⟨s, b', hs, hb', hfits⟩
        obtain ⟨u, rfl⟩ := hr
        rw [Value.get?_append, Option.bind_eq_some_iff] at hc
        obtain ⟨e, he, -⟩ := hc
        obtain ⟨e', he', hpersists⟩ := hkeeps r (List.prefix_append ..) e he
        rw [he', Option.some.injEq] at hb'
        subst hb'
        rw [hpersists.fits] at hfits
        exact hopen a' (List.mem_cons_of_mem _ ha') r (List.prefix_append ..)
          ⟨s, e, hs, he, hfits⟩) hb
    exact ⟨c', hc', hcb.trans hbc⟩

/-- A leaf after assignments that do not cover it was there before, or is padding. -/
theorem leafAt_assignAll (hcover : ∀ a ∈ as, ¬ a.field <+: q)
    (h : LeafAt (d.assignAll as).value q) :
    get? (d.assignAll as).value q = get? d.value q ∨
      (get? (d.assignAll as).value q = some .null ∧ ∃ a ∈ as, InFront a.field q) := by
  induction as generalizing d with
  | nil => exact Or.inl rfl
  | cons a as ih =>
    have ha := List.mem_cons_self (a := a) (l := as)
    rw [Document.assignAll_cons] at h ⊢
    rcases ih (fun a' ha' => hcover a' (List.mem_cons_of_mem _ ha')) h with heq | ⟨hnull, hpad⟩
    · have hleaf : LeafAt (d.assign a).value q := by
        obtain ⟨w, hw, hl⟩ := h
        exact ⟨w, heq ▸ hw, hl⟩
      rw [heq]
      rcases Value.leafAt_set (hcover a ha) hleaf with hold | ⟨hnull, hfront⟩
      · exact Or.inl hold
      · exact Or.inr ⟨hnull, a, ha, hfront⟩
    · obtain ⟨a', ha', hfront⟩ := hpad
      exact Or.inr ⟨hnull, a', List.mem_cons_of_mem _ ha', hfront⟩

end Row

/-! ### Breaches -/

/-- A change of a leaf that none of the writes covers, and how it came about. -/
inductive Breach (writes : OrderedSet Path) (u v : Value) (q : Path) : Prop where
  /-- The leaf is gone: on the way to it, a value was in the way of a write. -/
  | displaced {c : Value} (here : get? u q = some c) (leaf : c.isLeaf = true)
      (gone : ∀ c', get? v q = some c' → c.equal c' = false ∧ alike c c' = false)
      (way : ∃ w ∈ writes, ∃ r, r <+: q ∧ Obstructs u w r)
  /-- A list was padded with null in front of a write. -/
  | padded (null : get? v q = some .null) (fresh : get? u q ≠ some .null)
      (front : ∃ w ∈ writes, InFront w q)
  /-- The leaf is `nan`, which is not the same as itself. -/
  | nan (here : get? u q = some (.float .nan))

theorem Value.equal_of_isLeaf {c : Value} (hc : c.isLeaf = true) (hnan : c ≠ .float .nan) :
    c.equal c = true := by
  refine equal_refl ?_
  match c with
  | .float x => exact fun hx => hnan (congrArg Value.float hx)
  | .list [] | .map [] => trivial
  | .null | .bool _ | .int _ | .string _ => trivial
  | .list (_ :: _) | .map (_ :: _) => cases hc

/-- **The changed leaves that no write covers are the breaches.** -/
theorem changedLeaf_iff_breach {writes : OrderedSet Path} {as : List Assignment} {d : Document}
    (has : ∀ a ∈ as, a.field ∈ writes) {q : Path} (hcover : ∀ w ∈ writes, ¬ w <+: q) :
    ChangedLeaf d.value (d.assignAll as).value q ↔
      Breach writes d.value (d.assignAll as).value q := by
  have hcover' : ∀ a ∈ as, ¬ a.field <+: q := fun a ha => hcover _ (has a ha)
  constructor
  · intro h
    have hgone : LeafAt d.value q → Breach writes d.value (d.assignAll as).value q := by
      rintro ⟨c, hc, hl⟩
      have hchanged := (Document.changedLeaf_iff_of_leaf hc hl).mp h
      by_cases hnan : c = .float .nan
      · exact .nan (hnan ▸ hc)
      · by_cases hway : ∃ w ∈ writes, ∃ r, r <+: q ∧ Obstructs d.value w r
        · exact .displaced hc hl hchanged hway
        · -- With nothing in the way the leaf persists, which it has not.
          obtain ⟨c', hc', rfl | halike⟩ := get?_assignAll hcover'
            (fun a ha r hr ho => hway ⟨a.field, has a ha, r, hr, ho⟩) hc
          · have hsame := (hchanged c' hc').1
            rw [Value.equal_of_isLeaf hl hnan] at hsame
            cases hsame
          · rw [(hchanged c' hc').2] at halike
            cases halike
    rcases h.1 with hleaf | hleaf
    · exact hgone hleaf
    · -- A new leaf in a place that no assignment covers can only be padding.
      rcases leafAt_assignAll hcover' hleaf with heq | ⟨hnull, a, ha, hfront⟩
      · obtain ⟨c, hc, hl⟩ := hleaf
        exact hgone ⟨c, heq ▸ hc, hl⟩
      · refine .padded hnull (fun hold => h.2.1 ?_) ⟨a.field, has a ha, hfront⟩
        rw [hold, hnull]
        rfl
  · intro h
    cases h with
    | displaced here leaf gone _ => exact (Document.changedLeaf_iff_of_leaf here leaf).mpr gone
    | padded null fresh _ => exact Document.changedLeaf_of_null null fresh
    | nan here =>
      refine (Document.changedLeaf_iff_of_leaf here rfl).mpr ?_
      intro c _
      cases c with
      | float x => exact ⟨by simp [Value.equal, Binary64.eq, Binary64.partialCompare], rfl⟩
      | _ => exact ⟨rfl, rfl⟩

end DocumentRules
