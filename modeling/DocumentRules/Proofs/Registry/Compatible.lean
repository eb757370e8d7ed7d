/-
Rules that may stand in one registry.

Two rules are compatible if they differ in id and name and, where both are enabled, write to
paths that do not overlap.  The rules of a draft are pairwise compatible, whatever was done
to it:

* **`Draft.Compatible.perform`** — every operation on a draft keeps that, also one that fails;
* **`Registry.Reachable.compatible`** — the rules of every registry that the operations and
  overrides lead to are pairwise compatible.

Everything that changes a rule in place is one lemma (`pairwise_change`): the changed rule
only has to be compatible with the rules that have another id.
-/
import DocumentRules.Registry.Basic
import Mathlib.Data.List.Nodup
import Mathlib.Data.List.Pairwise

namespace DocumentRules

theorem map_eq_ok {ε α β : Type} {f : α → β} {x : Except ε α} {b : β} (h : x.map f = .ok b) :
    ∃ a, x = .ok a ∧ f a = b := by
  cases x with
  | error _ => cases h
  | ok a =>
    cases h
    exact ⟨a, rfl, rfl⟩

variable {m : Type → Type}

namespace Rule

/-- No write of one rule overlaps a write of the other. -/
def WritesApart (r s : Rule m) : Prop :=
  ∀ a ∈ r.writes, ∀ b ∈ s.writes, ¬ Path.overlaps a b = true

/-- The two rules may stand in one registry. -/
structure Compatible (r s : Rule m) : Prop where
  ids : r.id ≠ s.id
  names : r.name ≠ s.name
  writes : r.enabled = true → s.enabled = true → r.WritesApart s

theorem WritesApart.symm {r s : Rule m} (h : r.WritesApart s) : s.WritesApart r := by
  intro a ha b hb hab
  rw [Path.overlaps_comm] at hab
  exact h b hb a ha hab

theorem Compatible.symm {r s : Rule m} (h : r.Compatible s) : s.Compatible r :=
  ⟨h.ids.symm, h.names.symm, fun hs hr => (h.writes hr hs).symm⟩

instance : Std.Symm (@Compatible m) := ⟨fun _ _ h => h.symm⟩

theorem conflict?_eq_none {r s : Rule m} : r.conflict? s = none ↔ r.WritesApart s := by
  simp only [conflict?, List.find?_eq_none, List.mem_flatMap, List.mem_map, WritesApart,
    ← OrderedSet.mem_toList]
  constructor
  · intro h a ha b hb
    exact h (a, b) ⟨a, ha, b, hb, rfl⟩
  · rintro h _ ⟨a, ha, b, hb, rfl⟩
    exact h a ha b hb

/-- In a list of pairwise compatible rules an id names one rule. -/
theorem eq_of_id {rules : List (Rule m)} (h : rules.Pairwise Compatible) {r s : Rule m}
    (hr : r ∈ rules) (hs : s ∈ rules) (hid : r.id = s.id) : r = s := by
  have hnodup : (rules.map (·.id)).Nodup := List.pairwise_map.mpr (h.imp fun hrs => hrs.ids)
  exact List.inj_on_of_nodup_map hnodup hr hs hid

/-- Rules stay pairwise compatible when some are changed in place, as long as each changed
one is compatible with the rules that have another id. -/
theorem pairwise_change {rules : List (Rule m)} (h : rules.Pairwise Compatible) (id : String)
    (change : Rule m → Rule m)
    (hchange : ∀ s ∈ rules, s.id = id → ∀ t ∈ rules, t.id ≠ id → t.Compatible (change s)) :
    (rules.map fun s => if s.id == id then change s else s).Pairwise Compatible := by
  refine List.pairwise_map.mpr (h.imp_of_mem fun {s t} hs ht hst => ?_)
  by_cases his : s.id = id
  · have hit : t.id ≠ id := fun hit => hst.ids (his.trans hit.symm)
    simpa [his, hit] using (hchange s hs his t ht hit).symm
  · by_cases hit : t.id = id
    · simpa [his, hit] using hchange t ht hit s hs his
    · simpa [his, hit] using hst

end Rule

open Rule (Compatible)

namespace Draft

theorem conflictWith?_eq_none {r : Rule m} {others : List (Rule m)} :
    conflictWith? r others = none ↔
      ∀ s ∈ others, r.enabled = true → s.enabled = true → r.WritesApart s := by
  unfold conflictWith?
  split
  · rename_i hr
    simp [List.findSome?_eq_none_iff, Rule.conflict?_eq_none, hr]
  · rename_i hr
    simp [hr]

theorem mem_others {d : Draft m} {id : String} {s : Rule m} :
    s ∈ d.others id ↔ s ∈ d.rules ∧ s.id ≠ id := by
  simp [others]

theorem get?_eq_some {d : Draft m} {id : String} {r : Rule m} (h : d.get? id = some r) :
    r ∈ d.rules ∧ r.id = id :=
  ⟨List.mem_of_find?_eq_some h, by simpa using List.find?_some h⟩

/-! ### What the operations do when they succeed -/

theorem add_eq_ok {d e : Draft m} {r : Rule m} (h : d.add r = .ok e) :
    e = ⟨d.rules ++ [r]⟩ ∧ ∀ s ∈ d.rules, s.Compatible r := by
  unfold add at h
  split at h
  · cases h
  · rename_i hid
    split at h
    · cases h
    · rename_i hname
      split at h
      · cases h
      · rename_i hnone
        cases h
        rw [conflictWith?_eq_none] at hnone
        simp only [List.any_eq_true, beq_iff_eq, not_exists, not_and] at hid hname
        exact ⟨rfl, fun s hs => ⟨hid s hs, hname s hs, fun hs' hr' => (hnone s hs hr' hs').symm⟩⟩

theorem replace_eq_ok {d e : Draft m} {r : Rule m} (h : d.replace r = .ok e) :
    e = ⟨d.rules.map fun s => if s.id == r.id then r else s⟩ ∧
      ∀ t ∈ d.rules, t.id ≠ r.id → t.Compatible r := by
  unfold replace at h
  split at h
  · cases h
  · split at h
    · cases h
    · split at h
      · cases h
      · rename_i hname
        split at h
        · cases h
        · rename_i hnone
          cases h
          rw [conflictWith?_eq_none] at hnone
          simp only [List.any_eq_true, beq_iff_eq, not_exists, not_and] at hname
          refine ⟨rfl, fun t ht hid => ?_⟩
          have hother := mem_others.mpr ⟨ht, hid⟩
          exact ⟨hid, hname t hother, fun ht' hr' => (hnone t hother hr' ht').symm⟩

/-- Switching on a rule that was on, or off any rule, meets no check and needs none. -/
theorem setEnabled_eq_ok {d e : Draft m} {id : String} {on : Bool}
    (h : d.setEnabled id on = .ok e) :
    e = ⟨d.rules.map fun s => if s.id == id then { s with enabled := on } else s⟩ ∧
      ∃ r, d.get? id = some r ∧ ((on = true → r.enabled = true) ∨
        ∀ t ∈ d.rules, t.id ≠ id → t.enabled = true → t.WritesApart r) := by
  unfold setEnabled at h
  split at h
  · cases h
  · rename_i r hr
    refine ⟨?_, r, hr, ?_⟩
    · split at h
      · split at h
        · cases h
        · cases h
          rfl
      · cases h
        rfl
    · split at h
      · split at h
        · cases h
        · rename_i hnone
          rw [conflictWith?_eq_none] at hnone
          exact Or.inr fun t ht hid ht' => (hnone t (mem_others.mpr ⟨ht, hid⟩) rfl ht').symm
      · rename_i hcond
        exact Or.inl fun hon => by simpa [hon] using hcond

/-! ### Every operation keeps the rules compatible -/

/-- The rules of the draft are pairwise compatible. -/
def Compatible (d : Draft m) : Prop := d.rules.Pairwise Rule.Compatible

namespace Compatible

variable {d e : Draft m}

theorem empty : (Draft.empty : Draft m).Compatible := List.Pairwise.nil

theorem add {r : Rule m} (hd : d.Compatible) (h : d.add r = .ok e) : e.Compatible := by
  obtain ⟨rfl, hr⟩ := add_eq_ok h
  refine List.pairwise_append.mpr ⟨hd, List.pairwise_singleton .., fun s hs t ht => ?_⟩
  rw [List.mem_singleton.mp ht]
  exact hr s hs

theorem replace {r : Rule m} (hd : d.Compatible) (h : d.replace r = .ok e) : e.Compatible := by
  obtain ⟨rfl, hr⟩ := replace_eq_ok h
  exact Rule.pairwise_change hd r.id (fun _ => r) fun _ _ _ => hr

theorem upsert {r : Rule m} (hd : d.Compatible) (h : d.upsert r = .ok e) : e.Compatible := by
  unfold Draft.upsert at h
  split at h
  · exact hd.replace h
  · exact hd.add h

theorem setEnabled {id : String} {on : Bool} (hd : d.Compatible)
    (h : d.setEnabled id on = .ok e) : e.Compatible := by
  obtain ⟨rfl, r, hr, hcheck⟩ := setEnabled_eq_ok h
  obtain ⟨hmem, rfl⟩ := get?_eq_some hr
  refine Rule.pairwise_change hd r.id (fun s => { s with enabled := on })
    fun s hs hid t ht hne => ?_
  -- Where no check was made, the rule was on before.
  obtain rfl := Rule.eq_of_id hd hs hmem hid
  have hts : t.Compatible s := List.Pairwise.forall hd ht hs fun heq => hne (heq ▸ rfl)
  refine ⟨hts.ids, hts.names, fun hton hon => ?_⟩
  rcases hcheck with hwas | hapart
  · exact hts.writes hton (hwas hon)
  · exact hapart t ht hne hton

theorem addAll {rules : List (Rule m)} (hd : d.Compatible) (h : d.addAll rules = .ok e) :
    e.Compatible := by
  induction rules generalizing d with
  | nil =>
    cases h
    exact hd
  | cons r rules ih =>
    unfold Draft.addAll at h
    split at h
    · cases h
    · rename_i d' hd'
      exact ih (hd.add hd') h

theorem addSpec {s : Rule.Spec m} (hd : d.Compatible) (h : d.addSpec s = .ok e) :
    e.Compatible := by
  unfold Draft.addSpec at h
  split at h
  · cases h
  · exact hd.add h

theorem addSpecs (hd : d.Compatible) (specs : List (Rule.Spec m)) :
    (d.addSpecs specs).1.Compatible := by
  induction specs generalizing d with
  | nil => exact hd
  | cons s specs ih =>
    unfold Draft.addSpecs
    split
    · exact hd
    · rename_i d' hd'
      exact ih (hd.addSpec hd')

theorem build (hd : d.Compatible) : d.build.rules.Pairwise Rule.Compatible :=
  (sortBy_perm _ d.rules).symm.pairwise hd fun h => h.symm

end Compatible

/-- What can be done to a draft. -/
inductive Operation (m : Type → Type) where
  | add (r : Rule m)
  | addSpec (s : Rule.Spec m)
  /-- A row of registrations, such as that of the built-in rules. -/
  | addSpecs (specs : List (Rule.Spec m))
  | replace (r : Rule m)
  | upsert (r : Rule m)
  | setEnabled (id : String) (on : Bool)
  /-- Build the registry and start again from it. -/
  | rebuild

/-- The draft after an operation that gives a new draft or fails. -/
def orKeep (d : Draft m) : Except RegistryError (Draft m) → Draft m
  | .ok e => e
  | .error _ => d

/-- The draft after an operation, whether it succeeds or fails. -/
def perform (d : Draft m) : Operation m → Draft m
  | .add r => d.orKeep (d.add r)
  | .addSpec s => d.orKeep (d.addSpec s)
  | .addSpecs specs => (d.addSpecs specs).1
  | .replace r => d.orKeep (d.replace r)
  | .upsert r => d.orKeep (d.upsert r)
  | .setEnabled id on => d.orKeep (d.setEnabled id on)
  | .rebuild => d.build.edit

/-- The draft after operations one after another. -/
def performAll (d : Draft m) (ops : List (Operation m)) : Draft m := ops.foldl perform d

namespace Compatible

variable {d : Draft m}

theorem orKeep {outcome : Except RegistryError (Draft m)} (hd : d.Compatible)
    (h : ∀ e, outcome = .ok e → e.Compatible) : (d.orKeep outcome).Compatible := by
  cases outcome with
  | ok e => exact h e rfl
  | error _ => exact hd

/-- **Every operation keeps the rules pairwise compatible.** -/
theorem perform (hd : d.Compatible) (op : Operation m) : (d.perform op).Compatible := by
  cases op with
  | add r => exact hd.orKeep fun _ => hd.add
  | addSpec s => exact hd.orKeep fun _ => hd.addSpec
  | addSpecs specs => exact hd.addSpecs specs
  | replace r => exact hd.orKeep fun _ => hd.replace
  | upsert r => exact hd.orKeep fun _ => hd.upsert
  | setEnabled id on => exact hd.orKeep fun _ => hd.setEnabled
  | rebuild => exact hd.build

theorem performAll (hd : d.Compatible) (ops : List (Operation m)) :
    (d.performAll ops).Compatible := by
  induction ops generalizing d with
  | nil => exact hd
  | cons op ops ih => exact ih (hd.perform op)

end Compatible

end Draft

/-- The registries that can be put together: any history of operations, built in between or
not, and any overrides. -/
inductive Registry.Reachable : Registry m → Prop where
  | empty : Reachable .empty
  | revise {g : Registry m} (hg : Reachable g) (ops : List (Draft.Operation m)) :
      Reachable (g.edit.performAll ops).build
  | withOverrides {g h : Registry m} (hg : Reachable g) (overrides : List (Rule m))
      (hh : g.withOverrides overrides = .ok h) : Reachable h

/-- **The rules of every registry that can be put together are pairwise compatible.** -/
theorem Registry.Reachable.compatible {g : Registry m} (hg : g.Reachable) :
    g.rules.Pairwise Rule.Compatible := by
  induction hg with
  | empty => exact List.Pairwise.nil
  | @revise g _ ops ih =>
    have hedit : g.edit.Compatible := ih
    exact (hedit.performAll ops).build
  | withOverrides _ overrides hh =>
    unfold Registry.withOverrides at hh
    obtain ⟨d, hd, rfl⟩ := map_eq_ok hh
    exact (Draft.Compatible.empty.addAll hd).build

end DocumentRules
