/-
When a field matcher holds.

A matcher is a map of rules: `exists`, `regex`, `approx` and `equals`, and beside them perhaps the
tolerance `tol`, which is no rule but belongs to `approx`.  It holds of a field if it has a rule, has
no other names, and all of its rules hold.

* `Matcher.Present`, `Matcher.textOf`, `Matcher.Denotes` — what the rules see of a field;
* `Matcher.ExistsHolds`, `Matcher.RegexHolds`, `Matcher.ApproxHolds` — when a rule holds;
* `Matcher.Holds` — when a matcher does;
* **`checkRules_eq_ok_iff`** — the check goes through all rules;
* **`matcher_holds_iff`** — the check succeeds for the matchers that hold, and for a matcher that
  is nothing but a tolerance.
-/
import DocumentRules.Catalog.Matcher
import DocumentRules.Document.Access
import DocumentRules.Proofs.Document.Sameness

namespace DocumentRules

namespace Matcher

/-! ### What the rules see of a field -/

/-- The field is there and not null. -/
def Present (field : Option Value) : Prop := ∃ v, field = some v ∧ v ≠ .null

/-- The text of a field: a text itself, the display of any other value, and nothing for a field
that is missing or null. -/
def textOf : Option Value → String
  | none | some .null => ""
  | some (.string s) => s
  | some v => v.display

/-- The value is a number, or the text of one, perhaps with white space around it. -/
inductive Denotes : Value → Binary64 → Prop where
  | number {v : Value} {x : Binary64} (h : v.number? = some x) : Denotes v x
  | text {s : String} {x : Binary64} (h : Numeral.read? (Text.trimChars s.toList) = some x) :
      Denotes (.string s) x

/-! ### When the rules hold -/

/-- The entry of this name is a number. -/
def NumberAt (entries : List (String × Value)) (name : String) (x : Binary64) : Prop :=
  ∃ v, Entries.find? name entries = some v ∧ v.number? = some x

/-- The rule `approx` gives this number, alone or in a map. -/
inductive Expects : Value → Binary64 → Prop where
  | alone {v : Value} {x : Binary64} (h : v.number? = some x) : Expects v x
  | entry {entries : List (String × Value)} {x : Binary64} (h : NumberAt entries "value" x) :
      Expects (.map entries) x

/-- The tolerance for a rule `approx`: that beside the rule if it is a number, else that inside the
rule if it is one, else zero. -/
inductive Tolerates (m : Matcher) : Value → Binary64 → Prop where
  | beside {rule : Value} {t : Binary64} (h : NumberAt m.rules "tol" t) : Tolerates m rule t
  | inside {entries : List (String × Value)} {t : Binary64}
      (hbeside : ∀ x, ¬ NumberAt m.rules "tol" x) (h : NumberAt entries "tol" t) :
      Tolerates m (.map entries) t
  | zero {rule : Value} (hbeside : ∀ x, ¬ NumberAt m.rules "tol" x)
      (hinside : ∀ entries x, rule = .map entries → ¬ NumberAt entries "tol" x) :
      Tolerates m rule (.zero false)

/-- The rule is a truth value, which says whether the field is present. -/
def ExistsHolds (rule : Value) (field : Option Value) : Prop :=
  ∃ b, rule = .bool b ∧ (b = true ↔ Present field)

/-- The rule is a valid pattern that matches the text of the field. -/
def RegexHolds (rule : Value) (field : Option Value) : Prop :=
  ∃ pattern r, rule = .string pattern ∧ Regex.compile? pattern = some r ∧
    r.isMatch (textOf field) = true

/-- The rule gives a number, the field denotes one, and their difference does not exceed the
tolerance. -/
def ApproxHolds (m : Matcher) (rule : Value) (field : Option Value) : Prop :=
  ∃ expected t v actual, Expects rule expected ∧ m.Tolerates rule t ∧ field = some v ∧
    Denotes v actual ∧ ¬ t.lt (actual.sub expected).abs = true

/-- The names of the rules; a tolerance is none. -/
def ruleNames : List String := ["exists", "regex", "approx", "equals"]

/-- The matcher has no unknown names, and each of its rules holds of the field. -/
structure Accepts (m : Matcher) (field : Option Value) : Prop where
  known : ∀ name rule, Entries.find? name m.rules = some rule → name = "tol" ∨ name ∈ ruleNames
  presence : ∀ rule, Entries.find? "exists" m.rules = some rule → ExistsHolds rule field
  pattern : ∀ rule, Entries.find? "regex" m.rules = some rule → RegexHolds rule field
  closeness : ∀ rule, Entries.find? "approx" m.rules = some rule → m.ApproxHolds rule field
  /-- A field that is missing reads as null. -/
  equality : ∀ rule, Entries.find? "equals" m.rules = some rule →
    rule.looselyEqual (field.getD .null) = true

/-- The matcher has a rule, and accepts the field. -/
structure Holds (m : Matcher) (field : Option Value) : Prop extends m.Accepts field where
  hasRule : ∃ name ∈ ruleNames, ∃ rule, Entries.find? name m.rules = some rule

variable {m : Matcher} {rule : Value} {field : Option Value} {name : String}
  {entries : List (String × Value)} {x t : Binary64}

/-! ### Reading the field -/

theorem present?_eq_some_iff {v : Value} :
    present? field = some v ↔ field = some v ∧ v ≠ .null := by
  rw [present?, Option.filter_eq_some_iff, Bool.not_eq_true', Value.isNull_eq_false_iff]

theorem isSome_present?_iff : (present? field).isSome = true ↔ Present field := by
  simp only [Option.isSome_iff_exists, present?_eq_some_iff, Present]

theorem getD_fieldText (field : Option Value) :
    ((present? field).map fieldText).getD "" = textOf field := by
  match field with
  | none | some .null | some (.string _) | some (.bool _) | some (.int _) | some (.float _)
  | some (.list _) | some (.map _) => rfl

theorem numeric?_eq_some_iff {v : Value} : numeric? v = some x ↔ Denotes v x := by
  constructor
  · intro h
    match v with
    | .string s => exact .text h
    | .null | .bool _ | .int _ | .float _ | .list _ | .map _ => exact .number h
  · intro h
    cases h with
    | text h => exact h
    | number h =>
      match v with
      | .string s => cases h
      | .null | .bool _ | .int _ | .float _ | .list _ | .map _ => exact h

/-! ### Reading the rules -/

theorem numberAt_iff :
    NumberAt entries name x ↔ (Entries.find? name entries).bind Value.number? = some x :=
  Option.bind_eq_some_iff.symm

theorem approxTarget_fst_iff : (approxTarget rule).1 = some x ↔ Expects rule x := by
  constructor
  · intro h
    match rule with
    | .map entries => exact .entry (numberAt_iff.mpr h)
    | .null | .bool _ | .int _ | .float _ | .string _ | .list _ => exact .alone h
  · intro h
    cases h with
    | entry h => exact numberAt_iff.mp h
    | alone h =>
      match rule with
      | .map entries => cases h
      | .null | .bool _ | .int _ | .float _ | .string _ | .list _ => exact h

theorem approxTarget_snd_iff :
    (approxTarget rule).2 = some x ↔ ∃ entries, rule = .map entries ∧ NumberAt entries "tol" x := by
  match rule with
  | .map entries => simp [approxTarget, numberAt_iff]
  | .null | .bool _ | .int _ | .float _ | .string _ | .list _ => simp [approxTarget]

theorem tolerates_iff :
    m.Tolerates rule t ↔
      (((Entries.find? "tol" m.rules).bind Value.number?).or (approxTarget rule).2).getD
        (.zero false) = t := by
  -- The three kinds exclude each other, so where the computation takes one, the others are refuted.
  cases hbeside : (Entries.find? "tol" m.rules).bind Value.number? with
  | some x =>
    have hx : NumberAt m.rules "tol" x := numberAt_iff.mpr hbeside
    constructor
    · intro h
      cases h with
      | beside h => exact Option.some.inj (hbeside.symm.trans (numberAt_iff.mp h))
      | inside hno => exact absurd hx (hno x)
      | zero hno => exact absurd hx (hno x)
    · rintro rfl
      exact .beside hx
  | none =>
    have hno (x : Binary64) : ¬ NumberAt m.rules "tol" x := by
      rw [numberAt_iff, hbeside]
      exact nofun
    cases hinside : (approxTarget rule).2 with
    | some x =>
      obtain ⟨entries, rfl, hx⟩ := approxTarget_snd_iff.mp hinside
      constructor
      · intro h
        cases h with
        | beside h => exact absurd h (hno _)
        | inside _ h =>
          exact Option.some.inj ((numberAt_iff.mp hx).symm.trans (numberAt_iff.mp h))
        | zero _ hzero => exact absurd hx (hzero entries x rfl)
      · rintro rfl
        exact .inside hno hx
    | none =>
      have hnone (entries : List (String × Value)) (x : Binary64) (hrule : rule = .map entries) :
          ¬ NumberAt entries "tol" x := by
        intro hx
        rw [approxTarget_snd_iff.mpr ⟨entries, hrule, hx⟩] at hinside
        cases hinside
      constructor
      · intro h
        cases h with
        | beside h => exact absurd h (hno _)
        | inside _ h => exact absurd h (hnone _ _ rfl)
        | zero => rfl
      · rintro rfl
        exact .zero hno hnone

/-! ### One rule -/

/-- The check of `approx` succeeds where it finds both numbers and the difference is not greater
than the tolerance. -/
theorem checkApprox_eq_ok :
    m.checkApprox rule field = .ok () ↔
      ∃ expected v actual, (approxTarget rule).1 = some expected ∧ present? field = some v ∧
        numeric? v = some actual ∧
        ¬ ((((Entries.find? "tol" m.rules).bind Value.number?).or (approxTarget rule).2).getD
          (.zero false)).lt (actual.sub expected).abs = true := by
  rw [checkApprox]
  rcases approxTarget rule with ⟨_ | expected, inner⟩
  · simp
  cases present? field with
  | none => simp
  | some v =>
    cases hactual : numeric? v with
    | none => simp [hactual]
    | some actual => simp [hactual]

theorem checkApprox_eq_ok_iff : m.checkApprox rule field = .ok () ↔ m.ApproxHolds rule field := by
  rw [checkApprox_eq_ok]
  constructor
  · rintro ⟨expected, v, actual, hexpected, hv, hactual, hle⟩
    exact ⟨expected, _, v, actual, approxTarget_fst_iff.mp hexpected, tolerates_iff.mpr rfl,
      (present?_eq_some_iff.mp hv).1, numeric?_eq_some_iff.mp hactual, hle⟩
  · rintro ⟨expected, t, v, actual, hexpected, ht, hv, hactual, hle⟩
    -- A null denotes no number.
    have hnull : v ≠ .null := by
      rintro rfl
      cases numeric?_eq_some_iff.mpr hactual
    refine ⟨expected, v, actual, approxTarget_fst_iff.mpr hexpected,
      present?_eq_some_iff.mpr ⟨hv, hnull⟩, numeric?_eq_some_iff.mpr hactual, ?_⟩
    rw [tolerates_iff.mp ht]
    exact hle

theorem checkRule_exists : m.checkRule field "exists" rule = .ok () ↔ ExistsHolds rule field := by
  rw [checkRule, if_pos rfl]
  match rule with
  | .bool b =>
    have hholds : ExistsHolds (.bool b) field ↔ b = (present? field).isSome := by
      rw [Bool.eq_iff_iff, isSome_present?_iff]
      simp [ExistsHolds]
    rw [hholds]
    by_cases h : b = (present? field).isSome
    · simp [Value.bool?, h]
    · simp [Value.bool?, h]
  | .null | .int _ | .float _ | .string _ | .list _ | .map _ => simp [Value.bool?, ExistsHolds]

theorem checkRule_regex : m.checkRule field "regex" rule = .ok () ↔ RegexHolds rule field := by
  rw [checkRule, if_neg (by decide), if_pos rfl, getD_fieldText]
  match rule with
  | .string pattern =>
    cases hcompile : Regex.compile pattern with
    | error reason =>
      simp [Value.string?, RegexHolds, Regex.compile?, Except.toOption, hcompile]
    | ok r => simp [Value.string?, RegexHolds, Regex.compile?, Except.toOption, hcompile]
  | .null | .bool _ | .int _ | .float _ | .list _ | .map _ => simp [Value.string?, RegexHolds]

theorem checkRule_approx :
    m.checkRule field "approx" rule = .ok () ↔ m.ApproxHolds rule field := by
  rw [checkRule, if_neg (by decide), if_neg (by decide), if_pos rfl, checkApprox_eq_ok_iff]

theorem checkRule_tol (m : Matcher) (field : Option Value) (rule : Value) :
    m.checkRule field "tol" rule = .ok () := by
  rw [checkRule, if_neg (by decide), if_neg (by decide), if_neg (by decide), if_pos rfl]

theorem checkRule_equals :
    m.checkRule field "equals" rule = .ok () ↔
      rule.looselyEqual (field.getD .null) = true := by
  rw [checkRule, if_neg (by decide), if_neg (by decide), if_neg (by decide), if_neg (by decide),
    if_pos rfl]
  split <;> simp_all

theorem checkRule_unknown (htol : name ≠ "tol") (hname : name ∉ ruleNames) :
    m.checkRule field name rule = .error (.unknownRule name) := by
  simp only [ruleNames, List.mem_cons, List.not_mem_nil, or_false, not_or] at hname
  obtain ⟨hexists, hregex, happrox, hequals⟩ := hname
  rw [checkRule, if_neg hexists, if_neg hregex, if_neg happrox, if_neg htol, if_neg hequals]

/-! ### All rules -/

/-- **The check goes through all rules.** -/
theorem checkRules_eq_ok_iff {rules : List (String × Value)} :
    m.checkRules field rules = .ok () ↔ ∀ e ∈ rules, m.checkRule field e.1 e.2 = .ok () := by
  induction rules with
  | nil => simp [checkRules]
  | cons e rules ih =>
    obtain ⟨name, rule⟩ := e
    rw [checkRules, List.forall_mem_cons]
    cases hrule : m.checkRule field name rule with
    | error failure => simp
    | ok u => simp [ih]

/-- No entry is refused exactly if the matcher accepts the field. -/
theorem forall_checkRule_iff :
    (∀ name rule, Entries.find? name m.rules = some rule →
      m.checkRule field name rule = .ok ()) ↔ m.Accepts field := by
  constructor
  · intro h
    refine ⟨fun name rule hfind => ?_, fun rule hfind => checkRule_exists.mp (h _ _ hfind),
      fun rule hfind => checkRule_regex.mp (h _ _ hfind),
      fun rule hfind => checkRule_approx.mp (h _ _ hfind),
      fun rule hfind => checkRule_equals.mp (h _ _ hfind)⟩
    -- An entry with any other name is refused.
    by_contra hunknown
    rw [not_or] at hunknown
    have hok := h name rule hfind
    rw [checkRule_unknown hunknown.1 hunknown.2] at hok
    cases hok
  · intro h name rule hfind
    rcases h.known name rule hfind with rfl | hname
    · exact checkRule_tol m field rule
    · simp only [ruleNames, List.mem_cons, List.not_mem_nil, or_false] at hname
      rcases hname with rfl | rfl | rfl | rfl
      · exact checkRule_exists.mpr (h.presence rule hfind)
      · exact checkRule_regex.mpr (h.pattern rule hfind)
      · exact checkRule_approx.mpr (h.closeness rule hfind)
      · exact checkRule_equals.mpr (h.equality rule hfind)

theorem check_eq_ok_iff (hm : Entries.Ascending m.rules) :
    m.check field = .ok () ↔ m.rules ≠ [] ∧ m.Accepts field := by
  -- The check goes through a list, the rules are found by name: the names ascend, so it is the same.
  rw [check, ← forall_checkRule_iff]
  by_cases hempty : m.rules = []
  · simp [hempty]
  · rw [if_neg (by simpa using hempty), checkRules_eq_ok_iff, Prod.forall]
    simp only [Entries.find?_eq_some_iff hm, ne_eq, hempty, not_false_eq_true, true_and]

/-- The rules of a matcher are the entries of a map. -/
theorem ascending_of_of? {expected : Value} (hw : expected.WellFormed)
    (hm : Matcher.of? expected = some m) : Entries.Ascending m.rules := by
  unfold Matcher.of? at hm
  split at hm
  · rename_i k rules
    split at hm
    · obtain rfl := Option.some.inj hm
      have hrules : rules.WellFormed :=
        (Value.wellFormed_map.mp hw).2 (k, rules) (List.mem_singleton_self _)
      match rules with
      | .map entries => exact (Value.wellFormed_map.mp hrules).1
      | .null | .bool _ | .int _ | .float _ | .string _ | .list _ => exact List.Pairwise.nil
    · cases hm
  · cases hm

/-! ### Matchers without a rule -/

theorem find?_tolerance {tolerance : Value} (hm : m.rules = [("tol", tolerance)])
    (hfind : Entries.find? name m.rules = some rule) : name = "tol" := by
  rw [hm, Entries.find?] at hfind
  split at hfind
  · assumption
  · cases hfind

/-- A tolerance asks nothing of the field. -/
theorem accepts_of_tolerance {tolerance : Value} (hm : m.rules = [("tol", tolerance)])
    (field : Option Value) : m.Accepts field := by
  refine forall_checkRule_iff.mp fun name rule hfind => ?_
  obtain rfl := find?_tolerance hm hfind
  exact checkRule_tol m field rule

theorem not_holds_of_tolerance {tolerance : Value} (hm : m.rules = [("tol", tolerance)]) :
    ¬ m.Holds field := by
  rintro ⟨-, name, hname, rule, hfind⟩
  obtain rfl := find?_tolerance hm hfind
  revert hname
  decide

/-- Where all entries are tolerances, there is just one. -/
theorem exists_eq_tolerance (hm : Entries.Ascending m.rules) (hne : m.rules ≠ [])
    (htol : ∀ name rule, Entries.find? name m.rules = some rule → name = "tol") :
    ∃ tolerance, m.rules = [("tol", tolerance)] := by
  have hname : ∀ e ∈ m.rules, e.1 = "tol" := fun e he =>
    htol e.1 e.2 ((Entries.find?_eq_some_iff hm).mpr he)
  obtain ⟨⟨name, rule⟩, rest, hrules⟩ := List.exists_cons_of_ne_nil hne
  rw [hrules] at hname hm ⊢
  rw [List.forall_mem_cons] at hname
  obtain ⟨rfl, hrest⟩ := hname
  match rest with
  | [] => exact ⟨rule, rfl⟩
  | e :: _ =>
    -- The names ascend strictly, so that there is no second one.
    have hlt := (List.pairwise_cons.mp hm).1 e (List.mem_cons_self ..)
    rw [hrest e (List.mem_cons_self ..)] at hlt
    exact absurd hlt (StrictOrder.irrefl _)

/-! ### The check -/

/-- **The check of a matcher.**  It succeeds if the matcher holds of the field, and, though it asks
for nothing, if the matcher is nothing but a tolerance; such a matcher has no rule and does not
hold. -/
theorem matcher_holds_iff (expected : Document) (field : Option Value) (m : Matcher)
    (hm : Matcher.of? expected.value = some m) :
    (m.check field = .ok () ↔ m.Holds field ∨ ∃ tolerance, m.rules = [("tol", tolerance)]) ∧
      ∀ tolerance, m.rules = [("tol", tolerance)] → ¬ m.Holds field := by
  have hasc := ascending_of_of? expected.wellFormed hm
  refine ⟨?_, fun tolerance => not_holds_of_tolerance⟩
  rw [check_eq_ok_iff hasc]
  constructor
  · rintro ⟨hne, haccepts⟩
    by_cases hrule : ∃ name ∈ ruleNames, ∃ rule, Entries.find? name m.rules = some rule
    · exact Or.inl ⟨haccepts, hrule⟩
    · -- All names are known and none is that of a rule, so they are tolerances.
      refine Or.inr (exists_eq_tolerance hasc hne fun name rule hfind => ?_)
      exact (haccepts.known name rule hfind).resolve_right fun hname =>
        hrule ⟨name, hname, rule, hfind⟩
  · rintro (⟨haccepts, name, -, rule, hfind⟩ | ⟨tolerance, htol⟩)
    · refine ⟨?_, haccepts⟩
      intro hempty
      rw [hempty] at hfind
      cases hfind
    · exact ⟨by simp [htol], accepts_of_tolerance htol field⟩

/-- The matcher with these rules, as an expected value. -/
def asking (rules : List (Path × Document)) : Document :=
  rules.foldl (fun d r => d.set (.key matchKey :: r.1) r.2) Document.emptyMap

/-- `{"$match": {"approx": {"tol": 0, "value": 5}, "exists": true, "tol": 1}}`. -/
def closeToFive : Document :=
  asking [([.key "approx", .key "tol"], .int 0), ([.key "approx", .key "value"], .int 5),
    ([.key "exists"], .bool true), ([.key "tol"], .int 1)]

/-- The text of a number is close enough, since the tolerance beside the rule goes before the one
inside it; a null is not. -/
theorem matcher_holds_iff_close :
    ∃ m, Matcher.of? closeToFive.value = some m ∧ m.Holds (some (.string " 5.5 ")) ∧
      ¬ m.Holds (some .null) := by
  have hm : Matcher.of? closeToFive.value = some ⟨[("approx", .map [("tol", .int 0),
      ("value", .int 5)]), ("exists", .bool true), ("tol", .int 1)]⟩ := rfl
  refine ⟨_, hm, ?_, ?_⟩
  · obtain ⟨hiff, -⟩ := matcher_holds_iff closeToFive (some (.string " 5.5 ")) _ hm
    refine (hiff.mp (by decide +kernel)).resolve_right ?_
    rintro ⟨tolerance, htol⟩
    have hlength : 3 = 1 := congrArg List.length htol
    cases hlength
  · obtain ⟨hiff, -⟩ := matcher_holds_iff closeToFive (some .null) _ hm
    intro hholds
    have hok := hiff.mpr (Or.inl hholds)
    revert hok
    decide +kernel

/-- **A tolerance alone passes the check**: `{"$match": {"tol": 1}}` has none of the rules, so it
holds of no field. -/
theorem lone_tolerance_accepts :
    ∃ m, Matcher.of? (asking [([.key "tol"], .int 1)]).value = some m ∧
      (∀ name ∈ ruleNames, Entries.find? name m.rules = none) ∧
      m.check (some (.int 5)) = .ok () ∧ ¬ m.Holds (some (.int 5)) :=
  ⟨_, rfl, by decide, rfl, not_holds_of_tolerance rfl⟩

end Matcher

end DocumentRules
