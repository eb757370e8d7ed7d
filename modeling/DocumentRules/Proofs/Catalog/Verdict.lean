/-
The verdict on a completed run.

A run that completes passes if every checked field of the expected fragment holds of the result.
What the result holds beside these fields has no say in it, so that fields may be added.

* `Document.Grows` — entries of maps are set, at paths of some kind;
* **`Document.Grows.get?_eq`** — what stands apart from these paths stays;
* **`failing_fields_exact`** — the mismatches, the verdict, and what does not matter to them.
-/
import DocumentRules.Proofs.Catalog.Containment
import DocumentRules.Proofs.Catalog.Evaluation
import DocumentRules.Proofs.Document.Assignment

namespace DocumentRules

open Value (HoldsOf get?)

theorem TestOutcome.verdict_ofRun_iff {c : TestCase} {r : RunResult} :
    (TestOutcome.ofRun c (.ok r)).verdict = .pass ↔
      compare c.expected.value r.after.value = [] := by
  simp only [TestOutcome.ofRun]
  cases compare c.expected.value r.after.value <;> simp

/-- The second document comes of the first one by setting entries of maps that it holds, new ones or
not, each at a path of some kind. -/
inductive Document.Grows (allowed : Path → Prop) : Document → Document → Prop where
  | refl (d : Document) : Grows allowed d d
  | entry {d e : Document} {r : Path} {k : String} {entries : List (String × Value)}
      (h : Grows allowed d e) (hr : e.value.get? r = some (.map entries))
      (hk : allowed (r ++ [.key k])) (v : Document) :
      Grows allowed d (e.set (r ++ [.key k]) v)

/-- Where entries are set, everything stays at the paths that do not overlap theirs. -/
theorem Document.Grows.get?_eq {away : Path → Prop} {d e : Document} {q : Path}
    (h : d.Grows away e) (hq : ∀ p, away p → ¬ Path.overlaps q p = true) :
    e.value.get? q = d.value.get? q := by
  induction h with
  | refl => rfl
  | entry _ hr hk v ih =>
    have hapart := hq _ hk
    rw [Path.overlaps_iff, not_or] at hapart
    exact (Value.get?_set_entry hr hapart.2 hapart.1 v.value).trans ih

/-- **The comparison tells exactly of the fields that fail.**  The mismatches ascend by their paths,
without overlapping.  There is one at a path if the path is a checked field and what the fragment
expects there is at fault with what the document holds there; it names both, and a reason if a
matcher was asked.  So a completed run passes if every checked field holds; and setting entries of
the maps of a document, away from the checked fields, changes nothing. -/
theorem failing_fields_exact (expected actual : Document) :
    ((compare expected.value actual.value).Pairwise
      fun m n => m.path < n.path ∧ ¬ Path.overlaps m.path n.path = true) ∧
    (∀ m, m ∈ compare expected.value actual.value ↔ expected.value.Checks m.path ∧
      expected.value.get? m.path = some m.expected ∧
      m.actual = actual.value.get? m.path ∧ Fault m.expected m.actual m.reason) ∧
    (∀ (c : TestCase) (r : RunResult), c.expected = expected → r.after = actual →
      ((TestOutcome.ofRun c (.ok r)).verdict = .pass ↔
        ∀ p x, expected.value.Checks p → expected.value.get? p = some x →
          x.HoldsOf (actual.value.get? p))) ∧
    ∀ grown, actual.Grows
        (fun p => ∀ q, expected.value.Checks q → ¬ Path.overlaps q p = true) grown →
      compare expected.value grown.value = compare expected.value actual.value := by
  have hw := expected.wellFormed
  refine ⟨?_, fun m => Value.mem_compare_iff hw, ?_, fun grown hgrown => ?_⟩
  · exact (Value.compare_precedes hw actual.value).imp fun hmn =>
      ⟨Path.Precedes.lt hmn, Path.Precedes.not_overlaps hmn⟩
  · rintro c r rfl rfl
    rw [TestOutcome.verdict_ofRun_iff, Value.compare_eq_nil_iff_holds hw]
  · exact Value.compare_congr hw fun q hq => hgrown.get?_eq fun p hp => hp q hq

/-! ### A number where a map is expected -/

namespace Nested

/-- The fragment `{"a": {"b": 1, "c": {}}}`. -/
def expected : Document :=
  (Document.emptyMap.setScalar [.key "a", .key "b"] (.int 1)).set [.key "a", .key "c"]
    Document.emptyMap

/-- The document `{"a": {"b": 1, "c": 5}}`. -/
def actual : Document :=
  (Document.emptyMap.setScalar [.key "a", .key "b"] (.int 1)).setScalar [.key "a", .key "c"]
    (.int 5)

def test : TestCase := ⟨none, "nested", true, none, ∅, 0, Document.emptyMap, expected⟩

def result : RunResult := ⟨Document.emptyMap, actual, [], []⟩

theorem checks_c : expected.value.Checks [.key "a", .key "c"] :=
  ⟨nofun, .entry rfl rfl (.entry rfl rfl (.here rfl))⟩

theorem checks_cases {q : Path} (h : expected.value.Checks q) :
    q = [.key "a", .key "b"] ∨ q = [.key "a", .key "c"] := by
  obtain ⟨k, w, q, hw, h, rfl⟩ := (Value.stopsAt_of_isDescended rfl).mp h.2
  have hinner : k = "a" ∧ w = .map [("b", .int 1), ("c", .map [])] := by
    change (if k = "a" then some _ else none) = some w at hw
    split at hw
    · cases hw
      exact ⟨‹k = "a"›, rfl⟩
    · cases hw
  obtain ⟨rfl, rfl⟩ := hinner
  obtain ⟨l, x, q, hx, h, rfl⟩ := (Value.stopsAt_of_isDescended rfl).mp h
  change (if l = "b" then some _ else if l = "c" then some _ else none) = some x at hx
  split at hx
  · cases hx
    rw [(Value.stopsAt_of_not_isDescended rfl).mp h, ‹l = "b"›]
    exact Or.inl rfl
  · split at hx
    · cases hx
      rw [(Value.stopsAt_of_not_isDescended rfl).mp h, ‹l = "c"›]
      exact Or.inr rfl
    · cases hx

end Nested

open Nested in
theorem failing_fields_exact_nested :
    ⟨[.key "a", .key "c"], .map [], some (.int 5), none⟩ ∈ compare expected.value actual.value ∧
    (TestOutcome.ofRun test (.ok result)).verdict ≠ .pass ∧
    compare expected.value (actual.setScalar [.key "a", .key "d"] .null).value =
      compare expected.value actual.value := by
  obtain ⟨-, hmem, hverdict, hgrows⟩ := failing_fields_exact expected actual
  refine ⟨(hmem _).mpr ⟨checks_c, rfl, rfl, .noMap nofun⟩, fun hpass => ?_, hgrows _ ?_⟩
  · cases (hverdict test result rfl rfl).mp hpass _ _ checks_c rfl with
    | accepted hm => cases hm
    | same hf => exact hf [] rfl
  · refine .entry (r := [.key "a"]) (k := "d") (.refl actual) rfl ?_ ⟨.null, trivial⟩
    intro q hq
    rcases checks_cases hq with rfl | rfl <;> decide

end DocumentRules
