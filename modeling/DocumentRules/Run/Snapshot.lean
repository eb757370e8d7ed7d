/-
Snapshots.

A snapshot is a registry with the dependency graph of its enabled rules.  Runs take one at
their start; overrides give a new snapshot and leave the old one as it is.
-/
import DocumentRules.Dependency.Graph

namespace DocumentRules

/-- What ends a run without a result. A rule body that fails does not. -/
inductive RunError where
  | cycle (cycle : DependencyCycle)
  /-- A rule changed a leaf that it does not declare as a write. -/
  | undeclaredWrite (rule : String) (path : Path)
  | invalidOverride (e : RegistryError)
  deriving DecidableEq

def RunError.message : RunError → String
  | .cycle c => c.message
  | .undeclaredWrite rule path =>
    "Rule " ++ rule ++ " changed " ++ Path.text path ++ ", which it does not declare as a write"
  | .invalidOverride e => "Invalid rule override: " ++ e.message

/-- Rules in the order in which they run. -/
structure Snapshot (m : Type → Type) where
  registry : Registry m
  graph : DependencyGraph

namespace Snapshot

variable {m : Type → Type}

/-- The snapshot of a registry, unless its rules depend on each other in a circle. -/
def ofRegistry (g : Registry m) : Except RunError (Snapshot m) :=
  match DependencyGraph.build g with
  | .ok graph => .ok ⟨g, graph⟩
  | .error c => .error (.cycle c)

/-- The snapshot in which overrides take the place of the rules with their ids, or are added. -/
def withOverrides (s : Snapshot m) (overrides : List (Rule m)) : Except RunError (Snapshot m) :=
  if overrides.isEmpty then .ok s
  else
    match s.registry.withOverrides overrides with
    | .ok g => ofRegistry g
    | .error e => .error (.invalidOverride e)

/-- The enabled rules in the order in which they run. -/
def orderedRules (s : Snapshot m) : List (Rule m) := s.graph.orderedIds.filterMap s.registry.get?

end Snapshot

end DocumentRules
