/-
Normalizing twice.

A normalizing block is *settled* in a document if it would leave its field as it is.  Normalizing
a field settles the block, and it settles it for good: a field above it holds a container, which no
other block can normalize, a field below it does not exist, and a block of the other kind fails on
what it has left.

* **`NormalKind.normal_of_apply`**, **`NormalKind.Normal.apply`** — values are normalized to normal
  forms, and normal forms are left as they are;
* **`Block.Settled.assign`** — an assignment unsettles no other block;
* **`normalization_idempotent`** — so a second run of the blocks changes nothing.
-/
import DocumentRules.Proofs.Block.NumberText
import DocumentRules.Proofs.Calendar.ReadBack
import DocumentRules.Proofs.Document.Assignment

namespace DocumentRules

/-! ### Normal forms -/

namespace Normalize

/-- A date spells no number: there are minus signs between its parts. -/
theorem normalizeNumber_text (d : Date) :
    normalizeNumber (.string d.text) = .error (notNumber d.text) := by
  refine normalizeNumber_of_not_spells fun n h => ?_
  have hle := h.count_minus_le
  have hchars : d.text.toList = d.chars := String.toList_ofList
  rw [hchars, Date.chars, List.count_append, List.count_cons_self, List.count_append,
    List.count_cons_self] at hle
  omega

end Normalize

namespace NormalKind

open Normalize

variable {kind other : NormalKind} {v w : Value}

/-- What the normal forms of a kind are: numbers, or dates in the standard form. -/
inductive Normal : NormalKind → Value → Prop where
  | int (i : Int64) : Normal .number (.int i)
  | float (x : Binary64) : Normal .number (.float x)
  | date (d : Date) : Normal .date (.string d.text)

/-- **A value is normalized to a normal form.** -/
theorem normal_of_apply (h : kind.apply v = .ok w) : kind.Normal w := by
  cases kind with
  | number =>
    cases v with
    | int i =>
      cases h
      exact .int i
    | float x =>
      cases h
      exact .float x
    | string s =>
      simp only [NormalKind.apply, normalizeNumber] at h
      split at h
      · rename_i x _
        cases h
        rcases Value.ofNumber_cases x with ⟨i, -, heq⟩ | ⟨-, heq⟩ <;> rw [heq]
        · exact .int i
        · exact .float x
      · cases h
    | _ => cases h
  | date =>
    cases v with
    | string s =>
      simp only [NormalKind.apply, normalizeDate] at h
      split at h
      · cases h
        exact .date _
      · cases h
    | _ => cases h

/-- **A normal form is left as it is.** -/
theorem Normal.apply (h : kind.Normal v) : kind.apply v = .ok v := by
  cases h with
  | int _ => rfl
  | float _ => rfl
  | date d => exact normalizeDate_text d

/-- The other kind does not change it either: it fails. -/
theorem Normal.eq_of_apply (h : kind.Normal v) (hw : other.apply v = .ok w) : w = v := by
  by_cases hkind : other = kind
  · subst hkind
    rw [h.apply] at hw
    cases hw
    rfl
  · exfalso
    cases h with
    | int i =>
      cases other with
      | number => exact hkind rfl
      | date => cases hw
    | float x =>
      cases other with
      | number => exact hkind rfl
      | date => cases hw
    | date d =>
      cases other with
      | number =>
        rw [NormalKind.apply, normalizeNumber_text] at hw
        cases hw
      | date => exact hkind rfl

/-- Nothing stands below a normal form. -/
theorem Normal.isContainer_eq (h : kind.Normal v) : v.isContainer = false := by
  cases h <;> rfl

end NormalKind

/-! ### Settled blocks -/

namespace Block

variable {d : Document} {field other : Path} {kind kind' : NormalKind} {v : Value} {w : Document}

/-- Normalizing the field would change nothing: it is missing, or it holds a normal form. -/
def Settled (d : Document) (field : Path) (kind : NormalKind) : Prop :=
  ∀ v, d.value.get? field = some v → kind.Normal v

/-- An assignment settles its own block. -/
theorem settled_self (hw : kind.apply v = .ok w.value) : Settled (d.set field w) field kind := by
  intro u hu
  have hset : (d.set field w).value.get? field = some w.value := Value.get?_set_self ..
  rw [hset, Option.some.injEq] at hu
  exact hu ▸ NormalKind.normal_of_apply hw

/-- **An assignment unsettles no block**, wherever its field lies. -/
theorem Settled.assign (h : Settled d other kind') (hv : d.value.get? field = some v)
    (hw : kind.apply v = .ok w.value) : Settled (d.set field w) other kind' := by
  by_cases hbelow : field <+: other
  · obtain ⟨rest, rfl⟩ := hbelow
    cases rest with
    | nil =>
      -- The other block has the same field, and its normal form is not changed.
      rw [List.append_nil] at h ⊢
      have hnormal := h v hv
      intro u hu
      have hset : (d.set field w).value.get? field = some w.value := Value.get?_set_self ..
      rw [hset, Option.some.injEq] at hu
      rw [← hu, hnormal.eq_of_apply hw]
      exact hnormal
    | cons s rest =>
      -- Below the field there is nothing any more.
      intro u hu
      have hnone : (d.set field w).value.get? (field ++ s :: rest) = none := by
        have hscalar := (NormalKind.normal_of_apply hw).isContainer_eq
        have hset : (d.set field w).value.get? field = some w.value := Value.get?_set_self ..
        rw [Value.get?_append, hset, Option.bind_some, Value.get?_cons,
          Value.child?_of_scalar hscalar]
        rfl
      rw [hnone] at hu
      cases hu
  · by_cases habove : other <+: field
    · -- Above the field there is a container, which is no normal form.
      exfalso
      obtain ⟨rest, rfl⟩ := habove
      cases rest with
      | nil => exact hbelow (by simp)
      | cons s rest =>
        obtain ⟨c, a, hc, ha, -⟩ := Value.exists_child?_of_get? hv
        have hscalar := (h c hc).isContainer_eq
        rw [Value.child?_of_scalar hscalar] at ha
        cases ha
    · intro u hu
      refine h u ?_
      rwa [← Value.get?_set_of_not_prefix hv hbelow habove w.value]

/-- What a normalizing block does: nothing if its field is missing, or one assignment. -/
theorem effect_normalize_cases {regex : Option Regex} {a : Option Assignment}
    (h : (Block.normalize field kind).effect regex d = .ok a) :
    (a = none ∧ d.value.get? field = none) ∨
      ∃ v w, d.value.get? field = some v ∧ kind.apply v = .ok w.value ∧ a = some ⟨field, w⟩ := by
  simp only [effect] at h
  split at h
  · rename_i hnone
    cases h
    exact Or.inl ⟨rfl, hnone⟩
  · rename_i v hv
    split at h
    · rename_i w hw
      cases h
      exact Or.inr ⟨v, ⟨w, NormalKind.wellFormed_apply hw⟩, hv, hw, rfl⟩
    · cases h

/-- A settled block does nothing, or writes what is there. -/
theorem Settled.effect (h : Settled d field kind) (regex : Option Regex) :
    (Block.normalize field kind).effect regex d = .ok none ∨
      ∃ a, (Block.normalize field kind).effect regex d = .ok (some a) ∧ d.assign a = d := by
  cases hv : d.value.get? field with
  | none =>
    refine Or.inl ?_
    simp only [Block.effect]
    split
    · rfl
    · rename_i hsome
      rw [hv] at hsome
      cases hsome
  | some v =>
    have happly : kind.apply v = .ok v := (h v hv).apply
    have hwf := NormalKind.wellFormed_apply happly
    refine Or.inr ⟨⟨field, ⟨v, hwf⟩⟩, effect_normalize_of_ok hv happly regex, Document.ext ?_⟩
    exact Value.set_get? d.wellFormed hv

end Block

/-! ### Runs -/

namespace BlockRule

open Block (Settled)

variable {steps : List (Block × Option Regex)} {d e : Document}

/-- Every block normalizes a field, and is settled in the document. -/
def AllSettled (steps : List (Block × Option Regex)) (d : Document) : Prop :=
  ∀ step ∈ steps, ∃ field kind, step.1 = .normalize field kind ∧ Settled d field kind

/-- **A run of normalizing blocks** settles them all, and unsettles none. -/
theorem settled_of_runSteps (hsteps : ∀ step ∈ steps, ∃ field kind, step.1 = .normalize field kind)
    (h : runSteps steps d = .ok e) :
    (∀ field kind, Settled d field kind → Settled e field kind) ∧ AllSettled steps e := by
  induction steps generalizing d with
  | nil =>
    cases h
    exact ⟨fun _ _ => id, List.forall_mem_nil _⟩
  | cons step steps ih =>
    obtain ⟨⟨field, kind, hstep⟩, hrest⟩ := List.forall_mem_cons.mp hsteps
    obtain ⟨b, regex⟩ := step
    obtain rfl : b = .normalize field kind := hstep
    rw [runSteps] at h
    cases heffect : (Block.normalize field kind).effect regex d with
    | error _ =>
      rw [heffect] at h
      cases h
    | ok a =>
      rw [heffect] at h
      rcases Block.effect_normalize_cases heffect with ⟨rfl, hnone⟩ | ⟨v, w, hv, hw, rfl⟩
      · obtain ⟨hkept, hall⟩ := ih hrest h
        have hmissing : Settled d field kind := by
          intro u hu
          rw [hnone] at hu
          cases hu
        exact ⟨hkept, List.forall_mem_cons.mpr ⟨⟨field, kind, rfl, hkept _ _ hmissing⟩, hall⟩⟩
      · obtain ⟨hkept, hall⟩ := ih hrest h
        have hself := hkept _ _ (Block.settled_self hw)
        exact ⟨fun f k hf => hkept f k (hf.assign hv hw),
          List.forall_mem_cons.mpr ⟨⟨field, kind, rfl, hself⟩, hall⟩⟩

/-- **Settled blocks change nothing.** -/
theorem runSteps_of_settled (h : AllSettled steps d) : runSteps steps d = .ok d := by
  induction steps with
  | nil => rfl
  | cons step steps ih =>
    obtain ⟨⟨field, kind, hstep, hsettled⟩, hrest⟩ := List.forall_mem_cons.mp h
    obtain ⟨b, regex⟩ := step
    obtain rfl : b = .normalize field kind := hstep
    rw [runSteps]
    rcases hsettled.effect regex with hnone | ⟨a, ha, hassign⟩
    · rw [hnone]
      exact ih hrest
    · rw [ha]
      simp only [hassign]
      exact ih hrest

end BlockRule

/-- **Normalizing twice is normalizing once.**  Whatever the fields of the blocks, and however they
lie to each other: where a rule of normalizing blocks gives a document, it gives the same document
again. -/
theorem normalization_idempotent {r : BlockRule}
    (hr : ∀ b ∈ r.blocks, ∃ field kind, b = .normalize field kind) {d e : Document}
    (h : r.run d = .ok e) : r.run e = .ok e := by
  have hsteps : ∀ step ∈ r.steps, ∃ field kind, step.1 = .normalize field kind :=
    fun step hstep => hr step.1 (List.mem_map_of_mem hstep)
  exact BlockRule.runSteps_of_settled (BlockRule.settled_of_runSteps hsteps h).2

/-! ### A price and its day -/

namespace Invoice

/-- Two blocks on one field, a block below it, and a date behind the year 9999. -/
def blocks : BlockRule :=
  ⟨[(.normalize [.key "price"] .number, none), (.normalize [.key "day"] .date, none),
    (.normalize [.key "price", .key "net"] .date, none), (.normalize [.key "price"] .number, none),
    (.normalize [.key "due"] .date, none)]⟩

def document : Document :=
  ((Document.emptyMap.setScalar [.key "price"] (.string "€ 1.234,50")).setScalar [.key "day"]
    (.string "31/12/2023")).setScalar [.key "due"] (.string " +12345-1-2")

end Invoice

open Invoice in
theorem normalization_idempotent_invoice :
    ∃ e, blocks.run document = .ok e ∧
      e.value.get? [.key "day"] = some (.string "2023-12-31") ∧
      e.value.get? [.key "due"] = some (.string "+12345-01-02") ∧ blocks.run e = .ok e := by
  obtain ⟨e, he, hday, hdue⟩ : ∃ e, blocks.run document = .ok e ∧
      e.value.get? [.key "day"] = some (.string "2023-12-31") ∧
      e.value.get? [.key "due"] = some (.string "+12345-01-02") := ⟨_, rfl, rfl, rfl⟩
  refine ⟨e, he, hday, hdue, normalization_idempotent ?_ he⟩
  simp [blocks, BlockRule.blocks]

end DocumentRules
