/-
Overrides as an update of a map from ids to rules.

The rules of an overridden registry are registered one after another, and each meets the checks
against those before it.  What decides is nevertheless the list that they make in the end,
`Registry.overlay`: the rules whose ids no override has, and the overrides.

* **`Registry.withOverrides_eq_ok_iff`** — overrides are accepted exactly if the rules of the
  overlay are pairwise compatible, and they give the registry of these rules;
* **`Registry.get?_of_withOverrides`** — under an id stands the override that has it, or else the
  rule that stood there before;
* **`overrides_update`** — so the order of the overrides does not matter, overriding twice is
  overriding once, and a registry stays what it is under its own rules.
-/
import DocumentRules.Proofs.Registry.RegistrationOrder

namespace DocumentRules

variable {m : Type → Type}

/-- Rules are pairwise compatible exactly if they differ in ids and in names and the enabled ones
write apart. -/
theorem Rule.pairwise_compatible_iff {rules : List (Rule m)} :
    rules.Pairwise Rule.Compatible ↔
      (rules.map (·.id)).Nodup ∧ (rules.map (·.name)).Nodup ∧
        (rules.filter (·.enabled)).Pairwise Rule.WritesApart := by
  have hids : (rules.map (·.id)).Nodup ↔ rules.Pairwise fun r s => r.id ≠ s.id :=
    List.pairwise_map
  have hnames : (rules.map (·.name)).Nodup ↔ rules.Pairwise fun r s => r.name ≠ s.name :=
    List.pairwise_map
  rw [hids, hnames, List.pairwise_filter, ← List.pairwise_and_iff, ← List.pairwise_and_iff]
  constructor
  · intro h
    exact h.imp fun hrs => ⟨hrs.ids, hrs.names, hrs.writes⟩
  · intro h
    exact h.imp fun ⟨hids, hnames, hwrites⟩ => ⟨hids, hnames, hwrites⟩

namespace Registry

variable {g h : Registry m} {overrides others : List (Rule m)}

/-- The rules whose ids no override has, and the overrides. -/
def overlay (g : Registry m) (overrides : List (Rule m)) : List (Rule m) :=
  (g.rules.filter fun r => !overrides.any (·.id == r.id)) ++ overrides

theorem mem_overlay {r : Rule m} :
    r ∈ g.overlay overrides ↔ (r ∈ g.rules ∧ ∀ o ∈ overrides, o.id ≠ r.id) ∨ r ∈ overrides := by
  simp [overlay]

/-- **Overrides are accepted exactly if the rules of the overlay are pairwise compatible.** -/
theorem withOverrides_eq_ok_iff :
    g.withOverrides overrides = .ok h ↔
      (g.overlay overrides).Pairwise Rule.Compatible ∧ h = Draft.build ⟨g.overlay overrides⟩ := by
  constructor
  · intro hh
    obtain ⟨d, hd, rfl⟩ := map_eq_ok hh
    obtain ⟨hpair, rfl⟩ := Draft.empty_addAll_eq_ok_iff.mp hd
    exact ⟨hpair, rfl⟩
  · rintro ⟨hpair, rfl⟩
    have hadd : Draft.empty.addAll (g.overlay overrides) = .ok ⟨g.overlay overrides⟩ :=
      Draft.empty_addAll_eq_ok_iff.mpr ⟨hpair, rfl⟩
    show (Draft.empty.addAll (g.overlay overrides)).map Draft.build = _
    rw [hadd]
    rfl

/-- The rules of an overridden registry are those of the overlay. -/
theorem perm_overlay (hh : g.withOverrides overrides = .ok h) :
    h.rules.Perm (g.overlay overrides) := by
  obtain ⟨-, rfl⟩ := withOverrides_eq_ok_iff.mp hh
  exact sortBy_perm _ _

/-- Overlays with the same rules are accepted alike and give the same registry. -/
theorem withOverrides_congr {g' : Registry m}
    (hperm : (g.overlay overrides).Perm (g'.overlay others)) :
    g.withOverrides overrides = .ok h ↔ g'.withOverrides others = .ok h := by
  have hsame : Draft.SameRules ⟨g.overlay overrides⟩ ⟨g'.overlay others⟩ := hperm
  rw [withOverrides_eq_ok_iff, withOverrides_eq_ok_iff,
    ← hperm.pairwise_iff fun hrs => Rule.Compatible.symm hrs]
  exact and_congr_right fun hpair => by rw [hsame.build_eq hpair]

/-! ### What an overlay keeps -/

/-- **Under an id stands the override that has it**, or else the rule that stood there before. -/
theorem get?_of_withOverrides (hg : g.Reachable) (hh : g.withOverrides overrides = .ok h)
    (id : String) : h.get? id = (overrides.find? (·.id == id)).or (g.get? id) := by
  have hget {r : Rule m} : h.get? id = some r ↔ r ∈ g.overlay overrides ∧ r.id = id := by
    rw [get?_eq_some_iff (hg.withOverrides overrides hh).compatible, (perm_overlay hh).mem_iff]
  cases ho : overrides.find? (·.id == id) with
  | some o =>
    rw [Option.some_or, hget, mem_overlay]
    exact ⟨Or.inr (List.mem_of_find?_eq_some ho), by simpa using List.find?_some ho⟩
  | none =>
    have hnone : ∀ o ∈ overrides, o.id ≠ id := by simpa using ho
    rw [Option.none_or]
    refine Option.ext fun r => ?_
    rw [hget, mem_overlay, get?_eq_some_iff hg.compatible]
    constructor
    · rintro ⟨⟨hr, -⟩ | hr, hid⟩
      · exact ⟨hr, hid⟩
      · exact absurd hid (hnone r hr)
    · rintro ⟨hr, rfl⟩
      exact ⟨Or.inl ⟨hr, hnone⟩, rfl⟩

theorem overlay_perm (g : Registry m) (hperm : overrides.Perm others) :
    (g.overlay overrides).Perm (g.overlay others) := by
  have hkept (r : Rule m) : overrides.any (·.id == r.id) = others.any (·.id == r.id) :=
    hperm.any_eq
  simp only [overlay, hkept]
  exact hperm.append_left _

/-- What overrides leave of an overlay of the same overrides is what they left at first. -/
theorem overlay_overlay (hperm : h.rules.Perm (g.overlay overrides)) :
    (h.overlay overrides).Perm (g.overlay overrides) := by
  refine List.Perm.append_right _ ((hperm.filter _).trans ?_)
  have hall : overrides.filter (fun r => !overrides.any (·.id == r.id)) = [] := by
    simpa using fun r hr => ⟨r, hr, rfl⟩
  rw [overlay, List.filter_append, List.filter_filter, hall, List.append_nil]
  simp only [Bool.and_self]
  exact .refl _

/-- The rules of a registry in any order make the registry. -/
theorem Reachable.build_eq (hg : g.Reachable) {rules : List (Rule m)}
    (hperm : rules.Perm g.rules) : Draft.build ⟨rules⟩ = g := by
  have hcompatible : (⟨rules⟩ : Draft m).Compatible :=
    hperm.symm.pairwise hg.compatible fun hrs => hrs.symm
  have hsorted : (Draft.build ⟨rules⟩).rules = g.rules :=
    ((sortBy_perm _ rules).trans hperm).eq_of_pairwise
      (fun r s _ _ hrs hsr => absurd hsr hrs.asymm) hcompatible.build_ascending hg.ascending
  exact congrArg Registry.mk hsorted

/-- Laid over the registry that they are taken of, rules make its rules again. -/
theorem overlay_of_subset (hg : g.rules.Pairwise Rule.Compatible) {own : List (Rule m)}
    (hown : ∀ r ∈ own, r ∈ g.rules) (hnodup : own.Nodup) : (g.overlay own).Perm g.rules := by
  have hrules : g.rules.Nodup := hg.imp fun hrs hsame => hrs.ids (congrArg Rule.id hsame)
  have hreplaced : own.Perm (g.rules.filter fun r => !!own.any (·.id == r.id)) := by
    refine (List.perm_ext_iff_of_nodup hnodup (hrules.filter _)).mpr fun r => ?_
    simp only [Bool.not_not, List.mem_filter, List.any_eq_true, beq_iff_eq]
    constructor
    · intro hr
      exact ⟨hown r hr, r, hr, rfl⟩
    · rintro ⟨hr, o, ho, hid⟩
      exact Rule.eq_of_id hg (hown o ho) hr hid ▸ ho
  exact (hreplaced.append_left _).trans (List.filter_append_perm _ g.rules)

end Registry

/-- **Overrides are a checked update of the map from ids to rules.**  They are accepted exactly if
in the list of the rules that they leave and of the overrides themselves no two share an id or a
name and no write of an enabled rule overlaps one of another; what the rules that are replaced
collided with plays no part, nor does the order of the overrides.  Then an id leads to the override
that has it, or else to the rule it led to before, and there is no other rule; the same overrides
change nothing more.  And any rules of the registry, each taken once, are overrides that change
nothing. -/
theorem overrides_update {g : Registry m} (hg : g.Reachable) (overrides : List (Rule m)) :
    ((∃ h, g.withOverrides overrides = .ok h) ↔
      ((g.overlay overrides).map (·.id)).Nodup ∧ ((g.overlay overrides).map (·.name)).Nodup ∧
        ((g.overlay overrides).filter (·.enabled)).Pairwise Rule.WritesApart) ∧
    (∀ others, overrides.Perm others →
      ∀ h, g.withOverrides overrides = .ok h ↔ g.withOverrides others = .ok h) ∧
    (∀ h, g.withOverrides overrides = .ok h →
      (∀ id, h.get? id = (overrides.find? (·.id == id)).or (g.get? id)) ∧
      (∀ r, r ∈ h.rules ↔ (r ∈ g.rules ∧ ∀ o ∈ overrides, o.id ≠ r.id) ∨ r ∈ overrides) ∧
      h.withOverrides overrides = .ok h) ∧
    ∀ own : List (Rule m), (∀ r ∈ own, r ∈ g.rules) → own.Nodup →
      g.withOverrides own = .ok g := by
  refine ⟨?_, ?_, ?_, ?_⟩
  · rw [← Rule.pairwise_compatible_iff]
    constructor
    · rintro ⟨h, hh⟩
      exact (Registry.withOverrides_eq_ok_iff.mp hh).1
    · intro hpair
      exact ⟨_, Registry.withOverrides_eq_ok_iff.mpr ⟨hpair, rfl⟩⟩
  · intro others hperm h
    exact Registry.withOverrides_congr (g.overlay_perm hperm)
  · intro h hh
    have hperm := Registry.perm_overlay hh
    refine ⟨Registry.get?_of_withOverrides hg hh, fun r => ?_, ?_⟩
    · rw [hperm.mem_iff, Registry.mem_overlay]
    · exact (Registry.withOverrides_congr (Registry.overlay_overlay hperm)).mpr hh
  · intro own hown hnodup
    have hperm := Registry.overlay_of_subset hg.compatible hown hnodup
    refine Registry.withOverrides_eq_ok_iff.mpr ⟨?_, (hg.build_eq hperm).symm⟩
    exact hperm.symm.pairwise hg.compatible fun hrs => hrs.symm

/-! ### Two rules that exchange their names -/

namespace Renamed

open Chained (copying)

/-- Neither override may be registered beside the rule that has its name now. -/
def overrides : List (Rule Id) :=
  [{ copying "first" "a" "b" with name := "second" },
    { copying "second" "b" "c" with name := "first" }]

def overridden : Registry Id := Draft.build ⟨overrides⟩

end Renamed

open Renamed Chained in
/-- Together the two overrides are accepted, in either order; alone the first one is not. -/
theorem overrides_update_renamed :
    registry.withOverrides overrides = .ok overridden ∧
      registry.withOverrides overrides.reverse = .ok overridden ∧
      (overridden.get? "first").map (·.name) = some "second" ∧
      overridden.withOverrides overrides = .ok overridden ∧
      (¬ ∃ h, registry.withOverrides (overrides.take 1) = .ok h) ∧
      registry.withOverrides registry.rules = .ok registry := by
  have hok : registry.withOverrides overrides = .ok overridden := by rw [registry_eq]; rfl
  obtain ⟨-, horder, hupdate, hown⟩ := overrides_update reachable overrides
  obtain ⟨hget, -, hagain⟩ := hupdate overridden hok
  refine ⟨hok, (horder _ overrides.reverse_perm.symm _).mp hok, ?_, hagain, ?_, ?_⟩
  · rw [hget]
    rfl
  · rw [(overrides_update reachable _).1]
    rintro ⟨-, hnames, -⟩
    exact absurd hnames (by decide)
  · exact hown registry.rules (fun _ hr => hr) (List.Nodup.of_map (·.id) (by decide))

end DocumentRules
