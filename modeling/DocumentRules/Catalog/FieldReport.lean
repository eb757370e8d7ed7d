/-
Field reports.

A report has one line for every field that a case asserts or that a rule changed in its run,
with counters over all cases that have to do with the field.

* `assertedFields` — the fields that an expected fragment is compared at;
* `FieldSummary` — the lines while the cases are gone through, each of which counts for the fields
  that it has to do with;
* `fieldReport` — the lines, those with the most hits first, then in the order of the paths.
-/
import DocumentRules.Catalog.Outcome

namespace DocumentRules

mutual

/-- The fields of a fragment: its maps are descended, except those that are empty or
matchers. -/
def fieldsOf (expected : Value) : List Path :=
  match Matcher.of? expected with
  | some _ => [[]]
  | none =>
    match expected with
    | .map (entry :: entries) => fieldsOfEntries (entry :: entries)
    | _ => [[]]

def fieldsOfEntries : List (String × Value) → List Path
  | [] => []
  | (k, v) :: es => (fieldsOf v).map (Step.key k :: ·) ++ fieldsOfEntries es

end

/-- The fields that an expected fragment asserts; only the entries of a map assert any. -/
def assertedFields : Value → List Path
  | .map entries => fieldsOfEntries entries
  | _ => []

structure FieldCoverage where
  path : Path
  /-- Cases that assert the field. -/
  tested : Nat
  mutated : Nat
  /-- Cases that assert the field and whose run changed it. -/
  hits : Nat
  /-- Cases that assert the field and found it to hold. -/
  pass : Nat
  deriving DecidableEq

/-- What one case and its outcome say about fields. -/
structure FieldEvidence where
  asserted : OrderedSet Path
  mutated : OrderedSet Path
  /-- Asserted fields that did not hold. -/
  failed : OrderedSet Path

namespace FieldEvidence

/-- The evidence of a case; with a rule, only the changes of that rule count. -/
def ofOutcome (rule : Option String) (c : TestCase) (o : TestOutcome) : FieldEvidence :=
  let asserted := OrderedSet.ofList (assertedFields c.expected.value)
  { asserted := asserted
    mutated :=
      .ofList ((o.mutations.filter fun m => rule.all fun r => m.rule == some r).map (·.path))
    failed :=
      match o.verdict with
      | .pass => ∅
      | .fail mismatches => .ofList (mismatches.map (·.path))
      | .error _ => asserted }

/-- The fields that the case has to do with: it asserts them, or its run has a change there. -/
def fields (e : FieldEvidence) : OrderedSet Path := e.asserted.union e.mutated

def tests (e : FieldEvidence) (p : Path) : Bool := p ∈ e.asserted

def mutates (e : FieldEvidence) (p : Path) : Bool := e.mutated.toList.any (Path.overlaps · p)

/-- The field is asserted and holds. -/
def passes (e : FieldEvidence) (p : Path) : Bool := e.tests p && !decide (p ∈ e.failed)

end FieldEvidence

namespace FieldCoverage

/-- The line of a field before any case is counted. -/
def blank (p : Path) : FieldCoverage := ⟨p, 0, 0, 0, 0⟩

/-- The line after one more case. -/
def count (f : FieldCoverage) (e : FieldEvidence) : FieldCoverage where
  path := f.path
  tested := f.tested + (e.tests f.path).toNat
  mutated := f.mutated + (e.mutates f.path).toNat
  hits := f.hits + (e.tests f.path && e.mutates f.path).toNat
  pass := f.pass + (e.passes f.path).toNat

end FieldCoverage

/-- The lines of a report by their fields. -/
abbrev FieldSummary := List (Path × FieldCoverage)

namespace FieldSummary

/-- Count a case in the line of one field, which is new if there is none. -/
def countAt (e : FieldEvidence) (s : FieldSummary) (p : Path) : FieldSummary :=
  Entries.put p (((Entries.find? p s).getD (.blank p)).count e) s

/-- Count a case in the lines of all fields that it has to do with. -/
def countCase (s : FieldSummary) (e : FieldEvidence) : FieldSummary :=
  e.fields.toList.foldl (countAt e) s

end FieldSummary

/-- The report on evaluated cases; with a rule, only the changes of that rule count. -/
def fieldReport (rule : Option String) (evaluated : List (TestCase × TestOutcome)) :
    List FieldCoverage :=
  let evidence := evaluated.map fun (c, o) => FieldEvidence.ofOutcome rule c o
  let summary := evidence.foldl FieldSummary.countCase []
  sortBy (fun f g => decide (g.hits ≤ f.hits)) (summary.map (·.2))

def FieldCoverage.toJson (f : FieldCoverage) : Json :=
  .object [
    ("path", .string (Path.text f.path)),
    ("tested", .integer f.tested),
    ("mutated", .integer f.mutated),
    ("hits", .integer f.hits),
    ("pass", .integer f.pass)]

end DocumentRules
