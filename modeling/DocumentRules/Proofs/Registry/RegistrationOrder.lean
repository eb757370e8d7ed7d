/-
The order of registration does not matter.

Two drafts that hold the same rules, in whatever order, are told apart by nothing: every check
asks whether some rule has an id, a name or a conflicting write, and an id names one rule.  Only
which of several conflicts is named depends on the order (`RegistryError.Alike`).

* **`Draft.addAll_eq_ok_iff`** — rules are accepted exactly if they are pairwise compatible;
* **`Draft.SameRules.build_eq`** — the same rules make the same registry;
* **`Draft.SameRules.attempt`** — an operation ends alike on both drafts and leaves them with the
  same rules, and so do the operations of a history (`Draft.SameRules.endings`);
* **`registration_order_immaterial`** — so a list of rules may be registered in any order, and a
  draft may be built and started again at any time.
-/
import DocumentRules.Proofs.Dependency.LeastOrder
import DocumentRules.Proofs.Run.Frame

namespace DocumentRules

variable {m : Type → Type}

/-! ### Which rules are accepted -/

namespace Draft

variable {d e : Draft m} {r : Rule m}

/-- A rule is accepted if it is compatible with the rules of the draft. -/
theorem add_of_compatible (h : ∀ s ∈ d.rules, s.Compatible r) :
    d.add r = .ok ⟨d.rules ++ [r]⟩ := by
  have hid : ¬ d.rules.any (·.id == r.id) = true := by
    simpa using fun s hs => (h s hs).ids
  have hname : ¬ d.rules.any (·.name == r.name) = true := by
    simpa using fun s hs => (h s hs).names
  have hconflict : conflictWith? r d.rules = none :=
    conflictWith?_eq_none.mpr fun s hs hr hson => ((h s hs).writes hson hr).symm
  rw [add, if_neg hid, if_neg hname, hconflict]

/-- **A list of rules is accepted exactly if its rules are compatible** with those of the draft
and with each other. -/
theorem addAll_eq_ok_iff {rules : List (Rule m)} (hd : d.Compatible) :
    d.addAll rules = .ok e ↔ (d.rules ++ rules).Pairwise Rule.Compatible ∧ e = ⟨d.rules ++ rules⟩ := by
  induction rules generalizing d with
  | nil =>
    rw [addAll, List.append_nil, Except.ok.injEq]
    exact ⟨fun h => ⟨hd, h.symm⟩, fun h => h.2.symm⟩
  | cons r rules ih =>
    have hsplit : d.rules ++ r :: rules = (d.rules ++ [r]) ++ rules := by simp
    rw [hsplit, addAll]
    constructor
    · intro h
      split at h
      · cases h
      · rename_i d' hd'
        obtain ⟨rfl, -⟩ := add_eq_ok hd'
        exact (ih (hd.add hd')).mp h
    · intro h
      have hr : ∀ s ∈ d.rules, s.Compatible r := fun s hs =>
        (List.pairwise_append.mp (List.pairwise_append.mp h.1).1).2.2 s hs r (List.mem_singleton.mpr rfl)
      have hadd := add_of_compatible hr
      rw [hadd]
      exact (ih (hd.add hadd)).mpr h

theorem empty_addAll_eq_ok_iff {rules : List (Rule m)} :
    empty.addAll rules = .ok d ↔ rules.Pairwise Rule.Compatible ∧ d = ⟨rules⟩ :=
  addAll_eq_ok_iff Compatible.empty

namespace Compatible

/-- A registry finds a rule of its draft under its id, and nothing else. -/
theorem get?_build (hd : d.Compatible) {id : String} :
    d.build.get? id = some r ↔ r ∈ d.rules ∧ r.id = id := by
  rw [Registry.get?_eq_some_iff hd.build, Draft.build, mem_sortBy]

theorem getByName?_build (hd : d.Compatible) {name : String} :
    d.build.getByName? name = some r ↔ r ∈ d.rules ∧ r.name = name := by
  rw [Registry.getByName?_eq_some_iff hd.build, Draft.build, mem_sortBy]

end Compatible

end Draft

/-! ### Operations on drafts with the same rules -/

/-- Two errors are the same, except that of several conflicting writes different ones may be
named. -/
def RegistryError.Alike : RegistryError → RegistryError → Prop
  | .writeConflict _ second _, .writeConflict _ second' _ => second = second'
  | e, f => e = f

theorem RegistryError.Alike.refl (e : RegistryError) : e.Alike e := by
  cases e <;> rfl

/-- Both operations succeed with related results, or both fail with errors that are alike. -/
inductive SameEnd {α : Type*} (R : α → α → Prop) :
    Except RegistryError α → Except RegistryError α → Prop where
  | ok {a b : α} (h : R a b) : SameEnd R (.ok a) (.ok b)
  | error {e f : RegistryError} (h : e.Alike f) : SameEnd R (.error e) (.error f)

theorem SameEnd.refl_error {α : Type*} {R : α → α → Prop} (e : RegistryError) :
    SameEnd R (.error e) (.error e) :=
  .error (RegistryError.Alike.refl e)

namespace Draft

variable {d e : Draft m}

/-- Two drafts hold the same rules, perhaps in different orders. -/
def SameRules (d e : Draft m) : Prop := d.rules.Perm e.rules

/-- How an operation ends. -/
def ending (d : Draft m) : Operation m → Except RegistryError Unit
  | .add r => (d.add r).map fun _ => ()
  | .addSpec s => (d.addSpec s).map fun _ => ()
  | .addSpecs specs => (d.addSpecs specs).2
  | .replace r => (d.replace r).map fun _ => ()
  | .upsert r => (d.upsert r).map fun _ => ()
  | .setEnabled id on => (d.setEnabled id on).map fun _ => ()
  | .rebuild => .ok ()

/-- How operations one after another end, each on the draft that the one before it left. -/
def endings (d : Draft m) : List (Operation m) → List (Except RegistryError Unit)
  | [] => []
  | op :: ops => d.ending op :: (d.perform op).endings ops

/-- Both operations end alike, and what they leave are drafts with the same rules. -/
structure Parallel (d e : Draft m) (op : Operation m) : Prop where
  ending : SameEnd (fun _ _ => True) (d.ending op) (e.ending op)
  rules : (d.perform op).SameRules (e.perform op)

/-! #### The checks -/

/-- An error of the check names the rule that is checked. -/
theorem conflictWith?_eq_some {r : Rule m} {others : List (Rule m)} {err : RegistryError}
    (h : conflictWith? r others = some err) :
    ∃ first path, err = .writeConflict first r.id path := by
  unfold conflictWith? at h
  split at h
  · obtain ⟨other, -, hother⟩ := List.exists_of_findSome?_eq_some h
    obtain ⟨ab, -, rfl⟩ := Option.map_eq_some_iff.mp hother
    exact ⟨_, _, rfl⟩
  · cases h

/-- A check against the same rules has the same answer, up to which conflict is named. -/
theorem sameEnd_conflictWith? {r : Rule m} {others others' : List (Rule m)}
    (h : others.Perm others') {next next' : Draft m} (hnext : next.SameRules next') :
    SameEnd SameRules
      (match conflictWith? r others with
        | some err => .error err
        | none => .ok next)
      (match conflictWith? r others' with
        | some err => .error err
        | none => .ok next') := by
  have hnone : conflictWith? r others = none ↔ conflictWith? r others' = none := by
    simp only [conflictWith?_eq_none, h.mem_iff]
  cases hc : conflictWith? r others with
  | none =>
    rw [hnone.mp hc]
    exact .ok hnext
  | some err =>
    cases hc' : conflictWith? r others' with
    | none =>
      rw [hnone.mpr hc'] at hc
      cases hc
    | some err' =>
      obtain ⟨first, path, rfl⟩ := conflictWith?_eq_some hc
      obtain ⟨first', path', rfl⟩ := conflictWith?_eq_some hc'
      exact .error (by rfl)

namespace SameRules

theorem others (h : d.SameRules e) (id : String) : (d.others id).Perm (e.others id) :=
  h.filter _

/-- An id names one rule, wherever it stands. -/
theorem get?_eq (h : d.SameRules e) (hd : d.Compatible) (id : String) : d.get? id = e.get? id := by
  have he : e.Compatible := h.pairwise hd fun hrs => hrs.symm
  refine Option.ext fun r => ?_
  rw [get?, get?, find?_key_eq_some_iff (hd.imp fun hrs => hrs.ids),
    find?_key_eq_some_iff (he.imp fun hrs => hrs.ids), h.mem_iff]

/-! #### The operations -/

theorem add (h : d.SameRules e) (r : Rule m) : SameEnd SameRules (d.add r) (e.add r) := by
  rw [Draft.add, Draft.add, h.any_eq, h.any_eq]
  split
  · exact .refl_error _
  · split
    · exact .refl_error _
    · exact sameEnd_conflictWith? h (h.append_right [r])

theorem replace (h : d.SameRules e) (hd : d.Compatible) (r : Rule m) :
    SameEnd SameRules (d.replace r) (e.replace r) := by
  rw [Draft.replace, Draft.replace, ← h.get?_eq hd, (h.others r.id).any_eq]
  split
  · exact .refl_error _
  · split
    · exact .refl_error _
    · split
      · exact .refl_error _
      · exact sameEnd_conflictWith? (h.others r.id) (h.map _)

theorem upsert (h : d.SameRules e) (hd : d.Compatible) (r : Rule m) :
    SameEnd SameRules (d.upsert r) (e.upsert r) := by
  rw [Draft.upsert, Draft.upsert, h.any_eq]
  split
  · exact h.replace hd r
  · exact h.add r

theorem setEnabled (h : d.SameRules e) (hd : d.Compatible) (id : String) (on : Bool) :
    SameEnd SameRules (d.setEnabled id on) (e.setEnabled id on) := by
  rw [Draft.setEnabled, Draft.setEnabled, ← h.get?_eq hd]
  split
  · exact .refl_error _
  · split
    · exact sameEnd_conflictWith? (h.others id) (h.map _)
    · exact .ok (h.map _)

theorem addSpec (h : d.SameRules e) (s : Rule.Spec m) :
    SameEnd SameRules (d.addSpec s) (e.addSpec s) := by
  rw [Draft.addSpec, Draft.addSpec]
  split
  · exact .refl_error _
  · exact h.add _

theorem addSpecs (h : d.SameRules e) (specs : List (Rule.Spec m)) :
    (d.addSpecs specs).1.SameRules (e.addSpecs specs).1 ∧
      SameEnd (fun _ _ => True) (d.addSpecs specs).2 (e.addSpecs specs).2 := by
  induction specs generalizing d e with
  | nil => exact ⟨h, .ok trivial⟩
  | cons s specs ih =>
    rw [Draft.addSpecs, Draft.addSpecs]
    have hs := h.addSpec s
    generalize d.addSpec s = x, e.addSpec s = y at hs
    cases hs with
    | ok h => exact ih h
    | error herr => exact ⟨h, .error herr⟩

/-- The registries of drafts with the same rules are the same: only one order is possible. -/
theorem build_eq (h : d.SameRules e) (hd : d.Compatible) : d.build = e.build := by
  have he : e.Compatible := h.pairwise hd fun hrs => hrs.symm
  have hperm : d.build.rules.Perm e.build.rules :=
    ((sortBy_perm _ d.rules).trans h).trans (sortBy_perm _ e.rules).symm
  have hrules : d.build.rules = e.build.rules :=
    hperm.eq_of_pairwise (fun r s _ _ hrs hsr => absurd hsr hrs.asymm) hd.build_ascending
      he.build_ascending
  exact congrArg Registry.mk hrules

/-- A draft may be built and started again: it holds the same rules. -/
theorem edit_build (d : Draft m) : d.build.edit.SameRules d := sortBy_perm _ d.rules

end SameRules

/-- An operation on one draft ends alike on the other one, and leaves the same rules. -/
theorem Parallel.of_sameEnd {op : Operation m} {x y : Except RegistryError (Draft m)}
    (hxy : SameEnd SameRules x y) (h : d.SameRules e)
    (hd : d.ending op = x.map fun _ => ()) (he : e.ending op = y.map fun _ => ())
    (hd' : d.perform op = d.orKeep x) (he' : e.perform op = e.orKeep y) : Parallel d e op := by
  cases hxy with
  | ok hab =>
    refine ⟨?_, by rwa [hd', he']⟩
    rw [hd, he]
    exact .ok trivial
  | error herr =>
    refine ⟨?_, by rwa [hd', he']⟩
    rw [hd, he]
    exact .error herr

/-- **An operation ends alike on drafts with the same rules**, and leaves them with the same
rules. -/
theorem SameRules.parallel (h : d.SameRules e) (hd : d.Compatible) (op : Operation m) :
    Parallel d e op := by
  cases op with
  | add r => exact .of_sameEnd (h.add r) h rfl rfl rfl rfl
  | addSpec s => exact .of_sameEnd (h.addSpec s) h rfl rfl rfl rfl
  | addSpecs specs => exact ⟨(h.addSpecs specs).2, (h.addSpecs specs).1⟩
  | replace r => exact .of_sameEnd (h.replace hd r) h rfl rfl rfl rfl
  | upsert r => exact .of_sameEnd (h.upsert hd r) h rfl rfl rfl rfl
  | setEnabled id on => exact .of_sameEnd (h.setEnabled hd id on) h rfl rfl rfl rfl
  | rebuild =>
    refine ⟨.ok trivial, ?_⟩
    exact ((SameRules.edit_build d).trans h).trans (SameRules.edit_build e).symm

/-- **Every history of operations goes alike on drafts with the same rules**, and the same registry
is built after it. -/
theorem SameRules.history (h : d.SameRules e) (hd : d.Compatible) (ops : List (Operation m)) :
    List.Forall₂ (SameEnd fun _ _ => True) (d.endings ops) (e.endings ops) ∧
      (d.performAll ops).build = (e.performAll ops).build := by
  induction ops generalizing d e with
  | nil => exact ⟨.nil, h.build_eq hd⟩
  | cons op ops ih =>
    obtain ⟨hending, hrules⟩ := h.parallel hd op
    obtain ⟨hendings, hbuild⟩ := ih hrules (hd.perform op)
    exact ⟨.cons hending hendings, hbuild⟩

end Draft

/-! ### Lists of rules in another order -/

/-- **The order of registration does not matter.**  Of two lists with the same rules both are
accepted or none; the registries that are built of them are equal, with all the rules in strictly
ascending order of names and ids, each found under its id and its name and nothing else found, the
same enabled rules and the same dependencies; and a draft that starts again from the registry
goes on as the draft would have gone on that the rules were registered in. -/
theorem registration_order_immaterial {rules rules' : List (Rule m)} (h : rules.Perm rules') :
    ((∃ d, Draft.empty.addAll rules = .ok d) ↔ ∃ e, Draft.empty.addAll rules' = .ok e) ∧
    ∀ d e, Draft.empty.addAll rules = .ok d → Draft.empty.addAll rules' = .ok e →
      d.build = e.build ∧
      d.build.rules.Perm rules ∧ d.build.rules.Pairwise Rule.Before ∧
      (∀ id r, d.build.get? id = some r ↔ r ∈ rules ∧ r.id = id) ∧
      (∀ name r, d.build.getByName? name = some r ↔ r ∈ rules ∧ r.name = name) ∧
      d.build.enabledRules = e.build.enabledRules ∧
      DependencyGraph.build d.build = DependencyGraph.build e.build ∧
      ∀ ops, List.Forall₂ (SameEnd fun _ _ => True) (d.build.edit.endings ops) (e.endings ops) ∧
        (d.build.edit.performAll ops).build = (e.performAll ops).build := by
  have hcompatible : rules.Pairwise Rule.Compatible ↔ rules'.Pairwise Rule.Compatible :=
    h.pairwise_iff fun hrs => hrs.symm
  simp only [Draft.empty_addAll_eq_ok_iff]
  refine ⟨⟨fun ⟨_, hd, _⟩ => ⟨_, hcompatible.mp hd, rfl⟩,
    fun ⟨_, he, _⟩ => ⟨_, hcompatible.mpr he, rfl⟩⟩, ?_⟩
  rintro d e ⟨hd, rfl⟩ ⟨-, rfl⟩
  have hd : (⟨rules⟩ : Draft m).Compatible := hd
  have hsame : (⟨rules⟩ : Draft m).SameRules ⟨rules'⟩ := h
  have hbuild := hsame.build_eq hd
  refine ⟨hbuild, sortBy_perm _ rules, hd.build_ascending, fun _ _ => hd.get?_build,
    fun _ _ => hd.getByName?_build, by rw [hbuild], by rw [hbuild], fun ops => ?_⟩
  have hedit : (⟨rules⟩ : Draft m).build.edit.SameRules ⟨rules'⟩ :=
    (Draft.SameRules.edit_build _).trans hsame
  exact hedit.history hd.build ops

/-! ### Two rules, either of which comes first -/

namespace Swapped

def rules : List (Rule Id) := [Chained.copying "second" "b" "c", Chained.copying "first" "a" "b"]

/-- A third rule contests a write, is refused, and is accepted once the other one is off; what is
built then does not let the other one on again. -/
def history : List (Draft.Operation Id) :=
  [.add (Chained.copying "third" "d" "c"), .setEnabled "second" false,
    .add (Chained.copying "third" "d" "c"), .rebuild, .setEnabled "second" true]

end Swapped

open Swapped in
theorem registration_order_immaterial_swapped :
    rules.Perm rules.reverse ∧
      ∃ d e, Draft.empty.addAll rules = .ok d ∧ Draft.empty.addAll rules.reverse = .ok e ∧
        d.build = e.build ∧ d.build.rules.map Rule.id = ["first", "second"] ∧
        (e.endings history).map Except.isOk = [false, true, true, true, false] ∧
        List.Forall₂ (SameEnd fun _ _ => True) (d.build.edit.endings history) (e.endings history) ∧
        (d.build.edit.performAll history).build = (e.performAll history).build := by
  have hperm : rules.Perm rules.reverse := rules.reverse_perm.symm
  have hd : Draft.empty.addAll rules = .ok ⟨rules⟩ := rfl
  have he : Draft.empty.addAll rules.reverse = .ok ⟨rules.reverse⟩ := rfl
  obtain ⟨hbuild, -, -, -, -, -, -, hhistory⟩ := (registration_order_immaterial hperm).2 _ _ hd he
  refine ⟨hperm, _, _, hd, he, hbuild, by decide +kernel, by decide +kernel, ?_⟩
  exact hhistory history

end DocumentRules
