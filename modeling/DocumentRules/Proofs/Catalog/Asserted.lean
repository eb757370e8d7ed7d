/-
The fields that a fragment asserts.

A field report finds the fields of a fragment by a recursion of its own, beside that of the
comparison.  Below the root the two agree for every nesting of maps, matchers, lists and scalars.
At the root they agree if a map stands there that is not read as a matcher.  The comparison stops
at any other root and checks it as a whole; the report has no line for the root, and lists the
entries of a matcher there as if they were fields.

* **`mem_fieldsOf_iff`** — below the root, the fields are the places at which the comparison stops;
* **`mem_assertedFields_iff`**, **`checks_iff_root`** — the asserted and the checked fields of a
  fragment, by the kind of its root;
* **`asserted_fields_agree`** — what this means for the mismatches, the counted passes and the
  verdict on a case.
-/
import DocumentRules.Proofs.Catalog.FieldReport
import DocumentRules.Proofs.Catalog.Verdict

namespace DocumentRules

open Value (HoldsOf child? get?)

variable {f w : Value} {p : Path}

/-! ### Below the root -/

theorem fieldsOf_of_isDescended (hf : f.isDescended = true) :
    ∃ entries, f = .map entries ∧ fieldsOf f = fieldsOfEntries entries := by
  match f with
  | .map (e :: es) =>
    have hm : Matcher.of? (.map (e :: es)) = none := by
      simpa [Value.isDescended] using hf
    refine ⟨e :: es, rfl, ?_⟩
    simp only [fieldsOf, hm]
  | .map [] | .null | .bool _ | .int _ | .float _ | .string _ | .list _ => cases hf

theorem fieldsOf_of_stop (hf : f.isDescended = false) : fieldsOf f = [[]] := by
  unfold fieldsOf
  cases hm : Matcher.of? f with
  | some m => rfl
  | none =>
    match f with
    | .map (e :: es) => simp [Value.isDescended, hm] at hf
    | .map [] | .null | .bool _ | .int _ | .float _ | .string _ | .list _ => rfl

theorem fieldsOfEntries_eq_flatMap (entries : List (String × Value)) :
    fieldsOfEntries entries = entries.flatMap fun e => (fieldsOf e.2).map (Step.key e.1 :: ·) := by
  induction entries with
  | nil => rfl
  | cons e entries ih =>
    obtain ⟨k, v⟩ := e
    rw [fieldsOfEntries, ih, List.flatMap_cons]

theorem mem_fieldsOfEntries {entries : List (String × Value)}
    (hw : (Value.map entries).WellFormed) :
    p ∈ fieldsOfEntries entries ↔
      ∃ k v q, child? (.map entries) (.key k) = some v ∧ q ∈ fieldsOf v ∧ p = .key k :: q := by
  simp only [fieldsOfEntries_eq_flatMap, List.mem_flatMap, List.mem_map, Prod.exists, child?,
    Entries.find?_eq_some_iff (Value.wellFormed_map.mp hw).1]
  constructor
  · rintro ⟨k, v, hkv, q, hq, rfl⟩
    exact ⟨k, v, q, hkv, hq, rfl⟩
  · rintro ⟨k, v, q, hkv, hq, rfl⟩
    exact ⟨k, v, hkv, q, hq, rfl⟩

/-- **Below the root, the fields are the places at which the comparison stops.** -/
theorem mem_fieldsOf_iff (hw : f.WellFormed) : p ∈ fieldsOf f ↔ f.StopsAt p := by
  -- By induction on the entries: each recursion stops here, or goes into one of them.
  induction f using Value.childInduction generalizing p with
  | _ f ih =>
  cases hf : f.isDescended with
  | false => rw [fieldsOf_of_stop hf, List.mem_singleton, Value.stopsAt_of_not_isDescended hf]
  | true =>
    obtain ⟨entries, rfl, hfields⟩ := fieldsOf_of_isDescended hf
    rw [hfields, mem_fieldsOfEntries hw, Value.stopsAt_of_isDescended hf]
    refine exists_congr fun k => exists_congr fun v => exists_congr fun q => ?_
    refine and_congr_right fun hv => and_congr_left fun _ => ?_
    exact ih (.key k) v hv (Value.wellFormed_of_child? hw hv)

/-! ### At the root -/

/-- The value is a map that is not read as a matcher. -/
def Value.isPlainMap (f : Value) : Bool := f.entries?.isSome && (Matcher.of? f).isNone

/-- A plain map is empty or descended. -/
theorem Value.isPlainMap_cases (hf : f.isPlainMap = true) : f = .map [] ∨ f.isDescended = true := by
  match f with
  | .map [] => exact Or.inl rfl
  | .map (e :: es) => exact Or.inr (by simpa [isPlainMap, isDescended, entries?] using hf)
  | .null | .bool _ | .int _ | .float _ | .string _ | .list _ => cases hf

/-- **Of a plain map the asserted fields are the checked ones.** -/
theorem mem_assertedFields_iff (hw : f.WellFormed) (hf : f.isPlainMap = true) :
    p ∈ assertedFields f ↔ f.Checks p := by
  rcases Value.isPlainMap_cases hf with rfl | hf
  · exact iff_of_false List.not_mem_nil fun h => h.1 rfl
  · obtain ⟨entries, rfl, hfields⟩ := fieldsOf_of_isDescended hf
    have hne : Value.map entries ≠ .map [] := by
      rintro h
      rw [h] at hf
      cases hf
    rw [assertedFields, ← hfields, mem_fieldsOf_iff hw, Value.Checks]
    exact (and_iff_right hne).symm

/-- **Any other root is checked as a whole.** -/
theorem checks_iff_root (hf : f.isPlainMap = false) : f.Checks p ↔ p = [] := by
  have hstop : f.isDescended = false := by
    match f with
    | .map (e :: es) => simpa [Value.isPlainMap, Value.isDescended, Value.entries?] using hf
    | .map [] | .null | .bool _ | .int _ | .float _ | .string _ | .list _ => rfl
  have hne : f ≠ .map [] := by
    rintro rfl
    cases hf
  rw [Value.Checks, Value.stopsAt_of_not_isDescended hstop]
  exact and_iff_right hne

/-- The root is never asserted. -/
theorem root_not_mem_assertedFields (f : Value) : [] ∉ assertedFields f := by
  match f with
  | .map entries =>
    rw [assertedFields, fieldsOfEntries_eq_flatMap]
    simp
  | .null | .bool _ | .int _ | .float _ | .string _ | .list _ => exact List.not_mem_nil

/-! ### The report on one case -/

/-- The report on the case alone counts the field as passing. -/
def TestCase.CountedPassing (rule : Option String) (c : TestCase)
    (outcome : Except RunError RunResult) (p : Path) : Prop :=
  (FieldCoverage.counted (fieldReport rule [(c, .ofRun c outcome)]) p).pass = 1

variable {rule : Option String} {c : TestCase} {r : RunResult}

theorem countedPassing_iff {outcome : Except RunError RunResult} :
    c.CountedPassing rule outcome p ↔
      c.Asserts p ∧ (TestOutcome.ofRun c outcome).verdict.Upholds p := by
  rw [TestCase.CountedPassing, FieldCoverage.counted_fieldReport, pass_ofEvidence,
    List.countP_singleton]
  simp

/-- A completed run upholds the paths of which no mismatch is told. -/
theorem upholds_ofRun_iff :
    (TestOutcome.ofRun c (.ok r)).verdict.Upholds p ↔
      ∀ m ∈ compare c.expected.value r.after.value, m.path ≠ p := by
  simp only [TestOutcome.ofRun]
  cases compare c.expected.value r.after.value with
  | nil => simp [Verdict.Upholds]
  | cons m ms => rfl

/-- No mismatch is told of a checked field exactly if it holds. -/
theorem holdsOf_iff_not_told {actual : Value} (hw : f.WellFormed) (hp : f.Checks p)
    (hx : f.get? p = some w) :
    w.HoldsOf (actual.get? p) ↔ ∀ m ∈ compare f actual, m.path ≠ p := by
  obtain ⟨x, hget, hstop⟩ := hp.2.exists_get?
  obtain rfl : x = w := Option.some.inj (hget.symm.trans hx)
  rw [Value.holdsOf_iff hstop]
  constructor
  · rintro h m hm rfl
    obtain ⟨-, hexpected, hactual, hfault⟩ := (Value.mem_compare_iff hw).mp hm
    obtain rfl : m.expected = x := Option.some.inj (hexpected.symm.trans hx)
    exact h m.reason (hactual ▸ hfault)
  · intro h reason hfault
    exact h ⟨p, x, actual.get? p, reason⟩
      ((Value.mem_compare_iff hw).mpr ⟨hp, hx, rfl, hfault⟩) rfl

/-- A completed run passes exactly if it upholds the paths of all mismatches, which means that there
are none. -/
theorem verdict_iff_upholds {paths : Path → Prop}
    (h : ∀ m ∈ compare c.expected.value r.after.value, paths m.path) :
    (TestOutcome.ofRun c (.ok r)).verdict = .pass ↔
      ∀ p, paths p → (TestOutcome.ofRun c (.ok r)).verdict.Upholds p := by
  rw [TestOutcome.verdict_ofRun_iff, List.eq_nil_iff_forall_not_mem]
  simp only [upholds_ofRun_iff]
  constructor
  · intro hnone p _ m hm
    exact absurd hm (hnone m)
  · intro hupholds m hm
    exact hupholds m.path (h m hm) m hm rfl

/-- **What the report and the evaluator agree on.**  For a fragment with a plain map at its root the
asserted fields are the checked ones: every mismatch is told of an asserted field, an asserted
field is counted as passing exactly if what the fragment expects there holds of the result, and the
verdict is a pass exactly if all asserted fields are counted as passing.  With any other root only
the root is checked, which is never asserted: no mismatch is told of an asserted field, all
asserted fields are counted as passing, and the verdict is a pass exactly if the root holds.  After
an aborted run, which gives nothing to check, the verdict is no pass and no field is counted as
passing. -/
theorem asserted_fields_agree (rule : Option String) (c : TestCase) :
    (∀ r : RunResult, c.expected.value.isPlainMap = true →
      (∀ p, c.Asserts p ↔ c.expected.value.Checks p) ∧
      (∀ m ∈ compare c.expected.value r.after.value, c.Asserts m.path) ∧
      (∀ p x, c.Asserts p → c.expected.value.get? p = some x →
        (c.CountedPassing rule (.ok r) p ↔ x.HoldsOf (r.after.value.get? p))) ∧
      ((TestOutcome.ofRun c (.ok r)).verdict = .pass ↔
        ∀ p, c.Asserts p → c.CountedPassing rule (.ok r) p)) ∧
    (∀ r : RunResult, c.expected.value.isPlainMap = false →
      (∀ p, c.expected.value.Checks p ↔ p = []) ∧
      (∀ m ∈ compare c.expected.value r.after.value, ¬ c.Asserts m.path) ∧
      (∀ p, c.Asserts p → c.CountedPassing rule (.ok r) p) ∧
      ((TestOutcome.ofRun c (.ok r)).verdict = .pass ↔
        c.expected.value.HoldsOf (some r.after.value))) ∧
    ∀ e, (TestOutcome.ofRun c (.error e)).verdict ≠ .pass ∧
      ∀ p, ¬ c.CountedPassing rule (.error e) p := by
  have hw := c.expected.wellFormed
  refine ⟨fun r hplain => ?plain, fun r hroot => ?root, fun e => ?aborted⟩
  case plain =>
    -- All else follows, since what is told and what holds is known of the checked fields.
    have hasserts (p : Path) : c.Asserts p ↔ c.expected.value.Checks p :=
      mem_assertedFields_iff hw hplain
    have htold : ∀ m ∈ compare c.expected.value r.after.value, c.Asserts m.path := by
      intro m hm
      exact (hasserts m.path).mpr ((Value.mem_compare_iff hw).mp hm).1
    refine ⟨hasserts, htold, fun p x hp hx => ?_, ?_⟩
    · rw [countedPassing_iff, and_iff_right hp, upholds_ofRun_iff,
        holdsOf_iff_not_told hw ((hasserts p).mp hp) hx]
    · rw [verdict_iff_upholds htold]
      refine forall_congr' fun p => forall_congr' fun hp => ?_
      rw [countedPassing_iff, and_iff_right hp]
  case root =>
    have htold : ∀ m ∈ compare c.expected.value r.after.value, m.path = [] := by
      intro m hm
      exact (checks_iff_root hroot).mp ((Value.mem_compare_iff hw).mp hm).1
    refine ⟨fun p => checks_iff_root hroot, fun m hm => ?_, fun p hp => ?_, ?_⟩
    · rw [htold m hm]
      exact root_not_mem_assertedFields _
    · refine countedPassing_iff.mpr ⟨hp, upholds_ofRun_iff.mpr fun m hm hpath => ?_⟩
      -- The mismatch is told of the root, and the root is not asserted.
      rw [← hpath, htold m hm] at hp
      exact root_not_mem_assertedFields _ hp
    · rw [TestOutcome.verdict_ofRun_iff, Value.compare_eq_nil_iff_holds hw]
      simp only [checks_iff_root hroot]
      constructor
      · intro h
        exact h [] _ rfl rfl
      · rintro h p x rfl hx
        obtain rfl := Option.some.inj hx
        exact h
  case aborted =>
    refine ⟨nofun, fun p hp => ?_⟩
    exact (countedPassing_iff.mp hp).2

namespace Reported

/-- A run that changes nothing. -/
def idle : RunResult := ⟨Document.emptyMap, Document.emptyMap, [], []⟩

/-- The fragment `{"$match": {"exists": false}}`. -/
def rootMatcher : Document :=
  Document.emptyMap.setScalar [.key Matcher.matchKey, .key "exists"] (.bool false)

end Reported

open Reported in
/-- The field `a.b` is missing, and counted as failing; a matcher at the root rejects the result. -/
theorem asserted_fields_agree_missing :
    (expecting "keeps" fragment).Asserts [.key "a", .key "b"] ∧
    ¬ (expecting "keeps" fragment).CountedPassing none (.ok idle) [.key "a", .key "b"] ∧
    (TestOutcome.ofRun (expecting "keeps" fragment) (.ok idle)).verdict ≠ .pass ∧
    ¬ (expecting "matches" rootMatcher).expected.value.HoldsOf (some idle.after.value) := by
  obtain ⟨hplain, -, -⟩ := asserted_fields_agree none (expecting "keeps" fragment)
  obtain ⟨-, -, hcounted, hverdict⟩ := hplain idle rfl
  have hasserts : (expecting "keeps" fragment).Asserts [.key "a", .key "b"] := by decide
  have hfails : ¬ (expecting "keeps" fragment).CountedPassing none (.ok idle)
      [.key "a", .key "b"] := by
    intro h
    -- Nothing stands at the field, and the number that is expected there holds of no missing field.
    cases (hcounted _ _ hasserts rfl).mp h with
    | accepted hm => cases hm
  refine ⟨hasserts, hfails, fun hpass => hfails (hverdict.mp hpass _ hasserts), ?_⟩
  obtain ⟨-, hroot, -⟩ := asserted_fields_agree none (expecting "matches" rootMatcher)
  obtain ⟨-, -, -, hverdict⟩ := hroot idle rfl
  intro hholds
  have hpass := hverdict.mpr hholds
  cases hpass

open Reported in
/-- **A matcher at the root is reported as an entry**: it rejects the result, and the mismatch is
told of the root, which is not asserted.  The report counts its rule as a field, which passes. -/
theorem root_matcher_not_asserted :
    (∃ m ∈ compare rootMatcher.value idle.after.value,
      m.path = [] ∧ ¬ (expecting "matches" rootMatcher).Asserts m.path) ∧
    (TestOutcome.ofRun (expecting "matches" rootMatcher) (.ok idle)).verdict ≠ .pass ∧
    fieldReport none [(expecting "matches" rootMatcher,
      .ofRun (expecting "matches" rootMatcher) (.ok idle))] =
      [⟨[.key Matcher.matchKey, .key "exists"], 1, 0, 0, 1⟩] :=
  ⟨⟨_, List.mem_singleton.mpr rfl, rfl, by decide⟩, nofun, rfl⟩

end DocumentRules
