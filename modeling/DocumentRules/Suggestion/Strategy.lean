/-
Strategies.

A strategy proposes inputs that may make a rule write to a target.  The static strategy gives
every declared read its representative value, and then leaves out each of them once; the
boundary strategy puts boundary values into the reads that are numbers.
-/
import DocumentRules.Rule.Basic
import DocumentRules.Sample.Values
import DocumentRules.Suggestion.Config

namespace DocumentRules

/-- An input that may reach a target. -/
structure Candidate where
  input : Document
  reason : String

/-- Proposes inputs for a rule and one of its declared writes. -/
structure Strategy (m : Type → Type) where
  tag : String
  candidates : SuggestConfig → Rule m → Path → List Candidate

/-- The declared reads below the root. -/
def Rule.readFields {m : Type → Type} (r : Rule m) : List Path :=
  r.reads.toList.filter (!·.isEmpty)

/-- The document with these values, set one after another. -/
def documentOf (fields : List (Path × Document)) : Document :=
  fields.foldl (fun d f => d.set f.1 f.2) .emptyMap

/-- As `documentOf`, unless a field has a position that no list can have. -/
def documentWithin (fields : List (Path × Document)) : Except Overflow Document :=
  fields.foldlM (fun d f => d.setWithin f.1 f.2) .emptyMap

/-- The declared reads below the root with their representative values. -/
def Rule.representatives {m : Type → Type} (hints : FieldHints) (r : Rule m) :
    List (Path × Document) :=
  r.readFields.map fun p => (p, (FieldKind.ofPath hints p).representative)

/-- The first input that is proposed for a rule, in which all declared reads are set; the other
ones set no more. -/
def Rule.fill {m : Type → Type} (hints : FieldHints) (r : Rule m) : Except Overflow Document :=
  documentWithin (r.representatives hints)

namespace Strategy

variable {m : Type → Type}

def reasonFor (r : Rule m) (target : Path) (detail : String) : String :=
  "Rule " ++ r.name ++ " writes " ++ Path.text target ++ ": " ++ detail

/-- The document of these values without that of one field. -/
def without (values : List (Path × Document)) (field : Path) : Document :=
  documentOf (values.filter (·.1 != field))

/-- All reads present, then each left out once. -/
def staticCandidates (c : SuggestConfig) (r : Rule m) (target : Path) : List Candidate :=
  let values := r.representatives c.hints
  ⟨documentOf values, reasonFor r target "every declared read set to a representative value"⟩ ::
  r.readFields.map fun field =>
    ⟨without values field,
      reasonFor r target ("declared read " ++ Path.text field ++ " left missing")⟩

def boundaryValues : List Int64 := [-1, 0, 1, 9, 10, 99, 100, 101, 1000]

/-- The candidates of a field: boundary values in it, then none. -/
def probes (c : SuggestConfig) (r : Rule m) (values : List (Path × Document))
    (target field : Path) : List Candidate :=
  let whole := documentOf values
  ((boundaryValues.take c.boundaryProbes).map fun value =>
    ⟨whole.set field (.int value),
      reasonFor r target ("boundary " ++ Path.text field ++ " = " ++ toString value.toInt)⟩) ++
  [⟨without values field, reasonFor r target (Path.text field ++ " missing")⟩]

/-- Boundary values in each of the reads that are numbers. -/
def boundaryCandidates (c : SuggestConfig) (r : Rule m) (target : Path) : List Candidate :=
  let values := r.representatives c.hints
  (r.readFields.filter fun p => FieldKind.ofPath c.hints p == .number).flatMap
    (probes c r values target)

def static : Strategy m := ⟨staticTag, staticCandidates⟩

def boundary : Strategy m := ⟨boundaryTag, boundaryCandidates⟩

end Strategy

end DocumentRules
