/-
One authority for every path.

The rules of a registry differ in ids and in names, and of the enabled ones at most one declares
a write that covers a given path.  This holds of every draft that starts empty, whatever is done
to it, and of every registry that is built or overridden on the way.

* **`SingleAuthority`** — what holds of the rules, as lists of ids and names and path by path;
* **`singleAuthority_of_compatible`** — it follows from the rules being pairwise compatible;
* **`every_history_singleAuthority`** — so it holds after every history.
-/
import DocumentRules.BuiltIn.Rules
import DocumentRules.Proofs.Registry.Compatible
import DocumentRules.Proofs.Run.Frame

namespace DocumentRules

variable {m : Type → Type}

/-- No two rules share an id or a name, no write of an enabled rule overlaps one of another, and
at most one enabled rule declares a write that covers a given path. -/
structure SingleAuthority (rules : List (Rule m)) : Prop where
  ids : (rules.map Rule.id).Nodup
  names : (rules.map Rule.name).Nodup
  apart : ∀ r ∈ rules, ∀ s ∈ rules, r.id ≠ s.id → r.enabled = true → s.enabled = true →
    r.WritesApart s
  authority : ∀ p, (rules.filter fun r => r.enabled && r.declaresWrite p).length ≤ 1

/-- Two rules that declare writes covering one path do not write apart. -/
theorem Rule.not_writesApart {r s : Rule m} {p : Path} (hr : r.declaresWrite p = true)
    (hs : s.declaresWrite p = true) : ¬ r.WritesApart s := by
  obtain ⟨a, ha, hap⟩ := Rule.declaresWrite_iff.mp hr
  obtain ⟨b, hb, hbp⟩ := Rule.declaresWrite_iff.mp hs
  intro hapart
  exact hapart a ha b hb (Path.overlaps_iff.mpr (List.prefix_or_prefix_of_prefix hap hbp))

theorem singleAuthority_of_compatible {rules : List (Rule m)}
    (h : rules.Pairwise Rule.Compatible) : SingleAuthority rules where
  ids := List.pairwise_map.mpr (h.imp fun hrs => hrs.ids)
  names := List.pairwise_map.mpr (h.imp fun hrs => hrs.names)
  apart r hr s hs hid hron hson := by
    have hrs : r.Compatible s := List.Pairwise.forall h hr hs fun heq => hid (heq ▸ rfl)
    exact hrs.writes hron hson
  authority p := by
    -- Two of the rules in question would be compatible, and their writes meet at the path.
    have hmem (r : Rule m) (hr : r ∈ rules.filter fun r => r.enabled && r.declaresWrite p) :
        r.enabled = true ∧ r.declaresWrite p = true := by
      simpa using (List.mem_filter.mp hr).2
    have hpair := h.filter fun r => r.enabled && r.declaresWrite p
    generalize rules.filter (fun r => r.enabled && r.declaresWrite p) = filtered at hmem hpair
    match filtered with
    | [] => exact Nat.zero_le 1
    | [_] => exact Nat.le_refl 1
    | r :: s :: _ =>
      obtain ⟨hron, hrp⟩ := hmem r (by simp)
      obtain ⟨hson, hsp⟩ := hmem s (by simp)
      have hrs : r.Compatible s := (List.pairwise_cons.mp hpair).1 s (List.mem_cons_self ..)
      exact absurd (hrs.writes hron hson) (Rule.not_writesApart hrp hsp)

/-- The registration of the built-in rules is one of the operations on a draft. -/
theorem Draft.addBuiltIns_eq_perform [Pure m] (d : Draft m) :
    d.addBuiltIns.1 = d.perform (.addSpecs [Iban.spec, Total.spec]) := rfl

/-- **One authority for every path, after every history**: in every draft that operations,
whether they succeed or fail, have made of the empty one; in the draft that the built-in rules
are registered in after them; and in every registry that can be put together, and every draft
that starts from it. -/
theorem every_history_singleAuthority [Pure m] :
    (∀ ops : List (Draft.Operation m),
      SingleAuthority (Draft.empty.performAll ops).rules ∧
      SingleAuthority (Draft.empty.performAll ops).addBuiltIns.1.rules ∧
      SingleAuthority (Draft.empty.performAll ops).build.rules) ∧
    ∀ g : Registry m, g.Reachable →
      SingleAuthority g.rules ∧
      (∀ overrides h, g.withOverrides overrides = .ok h → SingleAuthority h.rules) ∧
      ∀ ops, SingleAuthority (g.edit.performAll ops).rules := by
  constructor
  · intro ops
    have hd : (Draft.empty.performAll ops : Draft m).Compatible :=
      Draft.Compatible.empty.performAll ops
    refine ⟨singleAuthority_of_compatible hd, ?_, singleAuthority_of_compatible hd.build⟩
    rw [Draft.addBuiltIns_eq_perform]
    exact singleAuthority_of_compatible (hd.perform _)
  · intro g hg
    refine ⟨singleAuthority_of_compatible hg.compatible, fun overrides h hh => ?_, fun ops => ?_⟩
    · exact singleAuthority_of_compatible (hg.withOverrides overrides hh).compatible
    · have hedit : g.edit.Compatible := hg.compatible
      exact singleAuthority_of_compatible (hedit.performAll ops)

/-! ### A write that two rules contest -/

namespace Contested

/-- A rule is switched off, another one takes over its write, and it is to be switched on again. -/
def history : List (Draft.Operation Id) :=
  [.add (Chained.copying "first" "a" "c"), .setEnabled "first" false,
    .add (Chained.copying "second" "b" "c"), .setEnabled "first" true]

def registry : Registry Id := (Registry.empty.edit.performAll history).build

end Contested

open Contested in
/-- The first rule stays off, as the second one has its write. -/
theorem every_history_singleAuthority_contested :
    registry.Reachable ∧
      registry.rules.map (fun r => (r.id, r.enabled)) = [("first", false), ("second", true)] ∧
      SingleAuthority registry.rules := by
  have hg : registry.Reachable := .revise .empty history
  exact ⟨hg, rfl, (every_history_singleAuthority.2 registry hg).1⟩

end DocumentRules
