/-
What the run of a block rule depends on.

A block looks at a document in the field that it reads and nowhere else.  Of two documents that
hold the same in the inferred reads of a rule, one may hold anything elsewhere: a later block
reads what stood there before, or what an earlier block has assigned, and both are the same in
the two runs.  So the runs fail together, or make the same assignments:

* **`Block.effect_congr`** — the effect of a block depends on the fields that it reads;
* **`Document.get?_assignAll_congr`** — what stands at a path after a row of assignments depends
  on what stood there before;
* **`BlockRule.assignments_congr`** — the assignments of a rule depend on its inferred reads;
* **`determined_by_reads`** — so does its run.
-/
import DocumentRules.Proofs.Block.Footprint

namespace DocumentRules

open Block (Assignment)

namespace Document

variable {d e : Document} {p : Path}

theorem get?_congr (h : d.value.get? p = e.value.get? p) : d.get? p = e.get? p := by
  have hinjective : Function.Injective Document.value := fun _ _ => Document.ext
  refine Option.map_injective hinjective ?_
  rw [map_value_get?, map_value_get?, h]

theorem has_congr (h : d.value.get? p = e.value.get? p) : d.has p = e.has p := by
  rw [has, has, Value.has, Value.has, h]

/-- What stands at a path after a row of assignments depends on what stood there before. -/
theorem get?_assignAll_congr (h : d.value.get? p = e.value.get? p) (as : List Assignment) :
    (d.assignAll as).value.get? p = (e.assignAll as).value.get? p := by
  induction as generalizing d e with
  | nil => exact h
  | cons a as ih =>
    have hfirst : (d.assign a).value.get? p = (e.assign a).value.get? p :=
      Value.get?_set_congr h a.field a.value.value
    exact ih hfirst

end Document

/-- **The effect of a block depends on the fields that it reads.** -/
theorem Block.effect_congr {b : Block} {d e : Document}
    (h : ∀ p ∈ b.reads, d.value.get? p = e.value.get? p) (regex : Option Regex) :
    b.effect regex d = b.effect regex e := by
  have hfield {field : Path} (hmem : field ∈ b.reads) :
      d.value.get? field = e.value.get? field := h field hmem
  cases b with
  | set field value => rfl
  | copy field target =>
    rw [effect, effect, Document.get?_congr (hfield (List.mem_singleton_self _))]
  | upper field | lower field | trim field =>
    rw [effect, effect, mapText, mapText, hfield (List.mem_singleton_self _)]
  | normalize field kind =>
    simp only [effect, hfield (List.mem_singleton_self _)]
  | extract field pattern target group =>
    rw [effect, effect, hfield (List.mem_singleton_self _)]
  | assert field message =>
    rw [effect, effect, Document.has_congr (hfield (List.mem_singleton_self _))]

namespace BlockRule

theorem stepAssignments_congr {steps : List (Block × Option Regex)} {d e : Document}
    (h : ∀ step ∈ steps, ∀ p ∈ step.1.reads, d.value.get? p = e.value.get? p) :
    stepAssignments steps d = stepAssignments steps e := by
  induction steps generalizing d e with
  | nil => rfl
  | cons step steps ih =>
    obtain ⟨b, regex⟩ := step
    obtain ⟨hfirst, hrest⟩ := List.forall_mem_cons.mp h
    rw [stepAssignments, stepAssignments, Block.effect_congr hfirst regex]
    cases b.effect regex e with
    | error failure => rfl
    | ok o =>
      cases o with
      | none => exact ih hrest
      | some a =>
        -- The same assignment is made in both, and the fields of the later blocks still agree.
        have hlater : stepAssignments steps (d.assign a) = stepAssignments steps (e.assign a) :=
          ih fun step hstep p hp =>
            Value.get?_set_congr (hrest step hstep p hp) a.field a.value.value
        show (stepAssignments steps (d.assign a)).map (a :: ·) =
          (stepAssignments steps (e.assign a)).map (a :: ·)
        rw [hlater]

/-- **The assignments of a rule depend on its inferred reads.** -/
theorem assignments_congr {b : BlockRule} {d e : Document}
    (h : ∀ p ∈ b.reads, d.value.get? p = e.value.get? p) :
    b.assignments d = b.assignments e := by
  refine stepAssignments_congr ?_
  intro step hstep p hp
  refine h p ?_
  rw [reads, OrderedSet.mem_ofList, blocks, List.mem_flatMap]
  exact ⟨step.1, List.mem_map_of_mem hstep, hp⟩

end BlockRule

/-- **The run of a block rule is determined by its inferred reads.**  On two documents that hold
the same in these fields it fails with the same failure, or it makes the same assignments at
inferred writes, each document being changed by these and by nothing else. -/
theorem determined_by_reads (b : BlockRule) {d e : Document}
    (h : ∀ p ∈ b.reads, d.value.get? p = e.value.get? p) :
    (∀ failure, b.run d = .error failure ↔ b.run e = .error failure) ∧
      ∀ d', b.run d = .ok d' → ∃ as : List Assignment, (∀ a ∈ as, a.field ∈ b.writes) ∧
        d' = d.assignAll as ∧ b.run e = .ok (e.assignAll as) := by
  have hsame : b.assignments d = b.assignments e := BlockRule.assignments_congr h
  rw [BlockRule.run_eq b d, BlockRule.run_eq b e, hsame]
  cases has : b.assignments e with
  | error failure =>
    refine ⟨fun _ => Iff.rfl, ?_⟩
    intro d' hd'
    cases hd'
  | ok as =>
    constructor
    · intro failure
      constructor <;> intro hfails <;> cases hfails
    · intro d' hd'
      cases hd'
      exact ⟨as, BlockRule.field_mem_writes has, rfl, rfl⟩

/-! ### Two documents that differ in everything that is not read -/

namespace Copying

/-- Copies a field, and changes the case of the copy. -/
def blocks : BlockRule :=
  ⟨[(.copy [.key "a"] [.key "b", .key "c"], none), (.upper [.key "b", .key "c"], none)]⟩

def bare : Document := Document.emptyMap.setScalar [.key "a"] (.string "x")

/-- The target of the copy lies below a number here. -/
def full : Document := (bare.setScalar [.key "b"] (.int 1)).setScalar [.key "d"] .null

theorem agree : ∀ p ∈ blocks.reads, bare.value.get? p = full.value.get? p := by
  intro p hp
  have hp' : p = [.key "a"] ∨ p = [.key "b", .key "c"] := by
    simpa [blocks, BlockRule.reads, BlockRule.blocks, Block.reads] using hp
  rcases hp' with rfl | rfl <;> rfl

end Copying

open Copying in
theorem determined_by_reads_copying :
    ∃ d', blocks.run bare = .ok d' ∧ ∃ as : List Assignment,
      (∀ a ∈ as, a.field ∈ blocks.writes) ∧ d' = bare.assignAll as ∧
        blocks.run full = .ok (full.assignAll as) :=
  ⟨_, rfl, (determined_by_reads blocks agree).2 _ rfl⟩

end DocumentRules
