/-
What becomes of a rule while a registry is revised.

A draft can be changed in several ways, and two of them, replacing and upserting, put one rule in
the place of another.  Whatever is done, in whatever order:

* **`Draft.exists_revises`** — one operation leaves a rule as it is, but may switch it on or off,
  or puts another one with its id in its place, which only succeeds where the rule is not built in;
* **`Draft.exists_after`** — so after a row of operations there is a rule with its id, which is
  the same but for the switch, or came with a replacement that succeeded;
* **`rules_persist`** — no rule is lost, and a built-in rule stays what it is.
-/
import DocumentRules.Proofs.Registry.Authority
import DocumentRules.Proofs.Registry.RegistrationOrder

namespace DocumentRules

variable {m : Type → Type}

namespace Rule

/-- The second rule is the first one, which may have been switched on or off. -/
def Switched (r s : Rule m) : Prop := s = { r with enabled := s.enabled }

namespace Switched

variable {r s t : Rule m}

theorem refl (r : Rule m) : r.Switched r := rfl

theorem trans (hrs : r.Switched s) (hst : s.Switched t) : r.Switched t := by
  rw [Switched] at hrs hst ⊢
  rw [hst, hrs]

theorem builtIn (h : r.Switched s) : s.builtIn = r.builtIn := by rw [h]

theorem id (h : r.Switched s) : s.id = r.id := by rw [h]

end Switched

end Rule

namespace Draft

variable {d e : Draft m} {r s : Rule m}

/-- The operation is to put this rule in the place of the one with its id. -/
inductive Operation.Carries : Operation m → Rule m → Prop where
  | replace (r : Rule m) : Carries (.replace r) r
  | upsert (r : Rule m) : Carries (.upsert r) r

/-- What an operation on a draft makes of one of its rules. -/
inductive Revises (d : Draft m) (op : Operation m) (r : Rule m) : Rule m → Prop where
  | kept {s : Rule m} (same : r.Switched s) : Revises d op r s
  | replaced {s : Rule m} (carries : op.Carries s) (id : s.id = r.id)
      (user : r.builtIn = false) (success : d.ending op = .ok ()) : Revises d op r s

/-! ### One operation -/

theorem get?_eq_some_iff (hd : d.Compatible) {id : String} :
    d.get? id = some r ↔ r ∈ d.rules ∧ r.id = id :=
  find?_key_eq_some_iff (hd.imp fun hrs => hrs.ids)

/-- Only a rule that is not built in is replaced. -/
theorem exists_user_of_replace (h : d.replace r = .ok e) :
    ∃ old, d.get? r.id = some old ∧ old.builtIn = false := by
  unfold replace at h
  split at h
  · cases h
  · rename_i old hold
    split at h
    · cases h
    · rename_i huser
      exact ⟨old, hold, by simpa using huser⟩

/-- A registration keeps the rules of the draft. -/
theorem mem_of_add (h : d.add s = .ok e) (hr : r ∈ d.rules) : r ∈ e.rules := by
  obtain ⟨rfl, -⟩ := add_eq_ok h
  exact List.mem_append_left _ hr

theorem mem_of_addSpec {spec : Rule.Spec m} (h : d.addSpec spec = .ok e) (hr : r ∈ d.rules) :
    r ∈ e.rules := by
  unfold addSpec at h
  split at h
  · cases h
  · exact mem_of_add h hr

theorem mem_addSpecs (specs : List (Rule.Spec m)) (hr : r ∈ d.rules) :
    r ∈ (d.addSpecs specs).1.rules := by
  induction specs generalizing d with
  | nil => exact hr
  | cons spec specs ih =>
    unfold addSpecs
    split
    · exact hr
    · rename_i d' hd'
      exact ih (mem_of_addSpec hd' hr)

/-- An operation that fails keeps the rules, so only a successful one has to be looked at. -/
theorem exists_revises_orKeep {outcome : Except RegistryError (Draft m)} {op : Operation m}
    (hr : r ∈ d.rules) (h : ∀ e, outcome = .ok e → ∃ s ∈ e.rules, d.Revises op r s) :
    ∃ s ∈ (d.orKeep outcome).rules, d.Revises op r s := by
  cases outcome with
  | ok e => exact h e rfl
  | error _ => exact ⟨r, hr, .kept (.refl r)⟩

/-- A replacement puts its rule in the place of the one with its id and keeps all others. -/
theorem exists_revises_replace {op : Operation m} (hd : d.Compatible) (hr : r ∈ d.rules)
    (hcarries : op.Carries s) (hending : d.ending op = .ok ()) (h : d.replace s = .ok e) :
    ∃ t ∈ e.rules, d.Revises op r t := by
  obtain ⟨rfl, -⟩ := replace_eq_ok h
  have hmem := List.mem_map_of_mem (f := fun t => if t.id == s.id then s else t) hr
  by_cases hid : r.id = s.id
  · refine ⟨s, by simpa [hid] using hmem, .replaced hcarries hid.symm ?_ hending⟩
    obtain ⟨old, hold, huser⟩ := exists_user_of_replace h
    rw [← hid, (get?_eq_some_iff hd).mpr ⟨hr, rfl⟩, Option.some.injEq] at hold
    rw [hold]
    exact huser
  · exact ⟨r, by simpa [hid] using hmem, .kept (.refl r)⟩

/-- **What one operation makes of a rule**, whether it succeeds or fails. -/
theorem exists_revises (hd : d.Compatible) (op : Operation m) (hr : r ∈ d.rules) :
    ∃ s ∈ (d.perform op).rules, d.Revises op r s := by
  cases op with
  | add s => exact exists_revises_orKeep hr fun e he => ⟨r, mem_of_add he hr, .kept (.refl r)⟩
  | addSpec spec =>
    exact exists_revises_orKeep hr fun e he => ⟨r, mem_of_addSpec he hr, .kept (.refl r)⟩
  | addSpecs specs => exact ⟨r, mem_addSpecs specs hr, .kept (.refl r)⟩
  | replace s =>
    refine exists_revises_orKeep hr fun e he => ?_
    have hending : d.ending (.replace s) = .ok () := by rw [ending, he]; rfl
    exact exists_revises_replace hd hr (.replace s) hending he
  | upsert s =>
    refine exists_revises_orKeep hr fun e he => ?_
    have hending : d.ending (.upsert s) = .ok () := by rw [ending, he]; rfl
    unfold Draft.upsert at he
    split at he
    · exact exists_revises_replace hd hr (.upsert s) hending he
    · exact ⟨r, mem_of_add he hr, .kept (.refl r)⟩
  | setEnabled id on =>
    refine exists_revises_orKeep hr fun e he => ?_
    obtain ⟨rfl, -⟩ := setEnabled_eq_ok he
    refine ⟨_, List.mem_map_of_mem hr, .kept ?_⟩
    split <;> rfl
  | rebuild => exact ⟨r, (mem_sortBy _).mpr hr, .kept (.refl r)⟩

/-! ### A row of operations -/

/-- One of the operations succeeds in putting the rule in the place of the one with its id. -/
def Installs (d : Draft m) (ops : List (Operation m)) (s : Rule m) : Prop :=
  ∃ front op back, ops = front ++ op :: back ∧ op.Carries s ∧
    (d.performAll front).ending op = .ok ()

theorem Installs.behind {ops : List (Operation m)} (op : Operation m)
    (h : (d.perform op).Installs ops s) : d.Installs (op :: ops) s := by
  obtain ⟨front, op', back, rfl, hcarries, hending⟩ := h
  exact ⟨op :: front, op', back, rfl, hcarries, hending⟩

/-- **What a row of operations makes of a rule**: it is there as it was, but for the switch; or,
if it is not built in, as it came with the last replacement that succeeded. -/
theorem exists_after (hd : d.Compatible) (ops : List (Operation m)) (hr : r ∈ d.rules) :
    ∃ s ∈ (d.performAll ops).rules, s.id = r.id ∧ (r.builtIn = true → r.Switched s) ∧
      (r.Switched s ∨ ∃ t, d.Installs ops t ∧ t.id = r.id ∧ t.Switched s) := by
  induction ops generalizing d r with
  | nil => exact ⟨r, hr, rfl, fun _ => .refl r, Or.inl (.refl r)⟩
  | cons op ops ih =>
    obtain ⟨s, hs, hrevises⟩ := exists_revises hd op hr
    obtain ⟨t, ht, hid, hbuiltIn, hcourse⟩ := ih (hd.perform op) hs
    refine ⟨t, ht, ?_⟩
    cases hrevises with
    | kept same =>
      refine ⟨hid.trans same.id, fun hr => same.trans (hbuiltIn (same.builtIn.trans hr)), ?_⟩
      rcases hcourse with hst | ⟨u, hu, huid, hut⟩
      · exact Or.inl (same.trans hst)
      · exact Or.inr ⟨u, hu.behind op, huid.trans same.id, hut⟩
    | replaced carries hsid user success =>
      refine ⟨hid.trans hsid, fun hr => absurd hr (by simp [user]), Or.inr ?_⟩
      rcases hcourse with hst | ⟨u, hu, huid, hut⟩
      · exact ⟨s, ⟨[], op, ops, rfl, carries, success⟩, hsid, hst⟩
      · exact ⟨u, hu.behind op, huid.trans hsid, hut⟩

end Draft

/-- **No rule is lost, and a built-in rule stays what it is.**  In every draft that operations have
led to, a rule that an id names is followed, after any further operations, by the rule that the id
names then.  That is the same rule, which may have been switched on or off; or, if the rule is not
built in, it may be one that a replacing or upserting operation of that id brought and that came in,
and again be switched.  Among the operations is the registration of the built-in rules
(`Draft.addBuiltIns_eq_perform`). -/
theorem rules_persist {g : Registry m} (hg : g.Reachable)
    (earlier ops : List (Draft.Operation m)) (id : String) (r : Rule m)
    (hr : (g.edit.performAll earlier).get? id = some r) :
    ∃ s, ((g.edit.performAll earlier).performAll ops).get? id = some s ∧
      (r.builtIn = true → s = { r with enabled := s.enabled }) ∧
      (s = { r with enabled := s.enabled } ∨
        ∃ t, (g.edit.performAll earlier).Installs ops t ∧ t.id = id ∧
          s = { t with enabled := s.enabled }) := by
  have hedit : g.edit.Compatible := hg.compatible
  have hd := hedit.performAll earlier
  obtain ⟨hmem, rfl⟩ := (Draft.get?_eq_some_iff hd).mp hr
  obtain ⟨s, hs, hid, hbuiltIn, hcourse⟩ := Draft.exists_after hd ops hmem
  exact ⟨s, (Draft.get?_eq_some_iff (hd.performAll ops)).mpr ⟨hs, hid⟩, hbuiltIn, hcourse⟩

/-! ### A built-in rule and one that is not -/

namespace Revised

open Chained (copying)

/-- The built-in rules are registered, and one other rule. -/
def earlier : List (Draft.Operation Id) :=
  [.addSpecs [Iban.spec, Total.spec], .add (copying "own" "a" "b")]

/-- Both rules are to be replaced, and are switched off. -/
def revision : List (Draft.Operation Id) :=
  [.replace (copying Total.ruleName "a" "c"), .upsert (copying "own" "a" "c"), .rebuild,
    .setEnabled Total.ruleName false, .setEnabled "own" false]

def draft : Draft Id := Registry.empty.edit.performAll earlier

end Revised

open Revised in
/-- The built-in rule is only off; the other one came with the replacement. -/
theorem rules_persist_revised :
    (∃ r s, draft.get? Total.ruleName = some r ∧ r.builtIn = true ∧
      (draft.performAll revision).get? Total.ruleName = some s ∧
      s = { r with enabled := false }) ∧
    ∃ s t, (draft.performAll revision).get? "own" = some s ∧ draft.Installs revision t ∧
      s = { t with enabled := false } ∧ s.writes.toList = [[.key "c"]] := by
  have htotal : (draft.get? Total.ruleName).map (·.builtIn) = some true := by decide +kernel
  have hoff : ((draft.performAll revision).get? Total.ruleName).map (·.enabled) = some false := by
    decide +kernel
  have hown : (draft.get? "own").map (·.writes.toList) = some [[.key "b"]] := by decide +kernel
  have hnew : ((draft.performAll revision).get? "own").map (fun s => (s.enabled, s.writes.toList)) =
      some (false, [[.key "c"]]) := by decide +kernel
  constructor
  · obtain ⟨r, hr, hbuiltIn⟩ := Option.map_eq_some_iff.mp htotal
    obtain ⟨s, hs, hsame, -⟩ := rules_persist .empty earlier revision _ r hr
    obtain ⟨s', hs', henabled⟩ := Option.map_eq_some_iff.mp hoff
    obtain rfl : s = s' := Option.some.inj (hs.symm.trans hs')
    refine ⟨r, s, hr, hbuiltIn, hs, ?_⟩
    rw [← henabled]
    exact hsame hbuiltIn
  · obtain ⟨r, hr, hwrites⟩ := Option.map_eq_some_iff.mp hown
    obtain ⟨s, hs, -, hcourse⟩ := rules_persist .empty earlier revision _ r hr
    obtain ⟨s', hs', hs''⟩ := Option.map_eq_some_iff.mp hnew
    obtain rfl : s = s' := Option.some.inj (hs.symm.trans hs')
    obtain ⟨henabled, hwrites'⟩ := Prod.mk.inj hs''
    rcases hcourse with hsame | ⟨t, ht, -, hst⟩
    · -- It does not write what it wrote before.
      rw [hsame] at hwrites'
      exact absurd (hwrites.symm.trans hwrites') (by decide)
    · refine ⟨s, t, hs, ht, ?_, hwrites'⟩
      rw [← henabled]
      exact hst

end DocumentRules
