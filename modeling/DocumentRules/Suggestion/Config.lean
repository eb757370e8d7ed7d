/-
Configuration of the suggestion of test cases.
-/
import DocumentRules.Sample.FieldKind

namespace DocumentRules

def staticTag : String := "static-v1"

def boundaryTag : String := "boundary-v1"

/-- How test cases are suggested and properties checked. -/
structure SuggestConfig where
  limit : Nat := 20
  strategies : List String := [staticTag, boundaryTag]
  /-- How many boundary values are probed for a field. -/
  boundaryProbes : Nat := 9
  /-- Kinds of fields that are not left to a guess. -/
  hints : FieldHints := []
  seed : Nat := 42
  propertyTrials : Nat := 50

namespace SuggestConfig

/-- Few suggestions, probes and trials. -/
def minimal : SuggestConfig where
  limit := 5
  strategies := [staticTag]
  boundaryProbes := 3
  propertyTrials := 5

def runs (c : SuggestConfig) (tag : String) : Bool := c.strategies.contains tag

/-- Hints are an object from path texts to kinds. -/
def hintsOfJson? : Json → Option FieldHints
  | .object entries =>
    entries.foldlM (fun hints e => (FieldKind.ofJson? e.2).map fun k => Entries.put e.1 k hints) []
  | _ => none

def fieldNames : List String :=
  ["limit", "strategies", "boundary_probes", "hints", "seed", "property_trials"]

def ofJson? (j : Json) : Option SuggestConfig := do
  let r ← Record.ofJson? fieldNames j
  let c : SuggestConfig := {}
  let limit ← r.defaulted "limit" Json.natural? c.limit
  let strategies ← r.defaulted "strategies" (Json.list? Json.string?) c.strategies
  let probes ← r.defaulted "boundary_probes" Json.natural? c.boundaryProbes
  let hints ← r.defaulted "hints" hintsOfJson? c.hints
  let seed ← r.defaulted "seed" Json.natural? c.seed
  let trials ← r.defaulted "property_trials" Json.natural? c.propertyTrials
  return ⟨limit, strategies, probes, hints, seed, trials⟩

def toJson (c : SuggestConfig) : Json :=
  .object [
    ("limit", .integer c.limit),
    ("strategies", .array (c.strategies.map .string)),
    ("boundary_probes", .integer c.boundaryProbes),
    ("hints", .object (c.hints.map fun h => (h.1, .string h.2.word))),
    ("seed", .integer c.seed),
    ("property_trials", .integer c.propertyTrials)]

end SuggestConfig

end DocumentRules
