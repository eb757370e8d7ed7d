/-
Catalogs of test cases.

A catalog keeps its cases in the order in which they came.  Selecting gives the enabled cases
that match a filter in the order in which they run: the highest priority first, then by name,
then by id.
-/
import DocumentRules.Catalog.Case
import DocumentRules.Order.Sorting

namespace DocumentRules

/-- Which cases to select; a criterion that is missing admits all. -/
structure TestFilter where
  suite : Option String := none
  tag : Option String := none

namespace TestFilter

def admits (f : TestFilter) (c : TestCase) : Bool :=
  f.suite.all (fun s => c.suite == some s) && f.tag.all c.hasTag

def ofJson? (j : Json) : Option TestFilter := do
  let r ← Record.ofJson? ["suite", "tag"] j
  return ⟨← r.optional "suite" Json.string?, ← r.optional "tag" Json.string?⟩

end TestFilter

namespace TestCase

/-- The order of ids; a case without an id comes before those with one. -/
def IdLess : Option String → Option String → Prop
  | none, some _ => True
  | some a, some b => a < b
  | _, none => False

instance : (a b : Option String) → Decidable (IdLess a b)
  | none, some _ => isTrue trivial
  | some a, some b => inferInstanceAs (Decidable (a < b))
  | none, none => isFalse fun h => h
  | some _, none => isFalse fun h => h

/-- The order in which cases run. -/
def Before (c d : TestCase) : Prop :=
  d.priority < c.priority ∨
    (c.priority = d.priority ∧ (c.name < d.name ∨ (c.name = d.name ∧ IdLess c.id d.id)))

instance (c d : TestCase) : Decidable (Before c d) := inferInstanceAs (Decidable (_ ∨ _))

end TestCase

/-- Test cases in the order in which they came. -/
structure Catalog where
  cases : List TestCase

namespace Catalog

def empty : Catalog := ⟨[]⟩

/-- Put a case in the place of the first one with its id, or at the end. -/
def upsertInto (c : TestCase) : List TestCase → List TestCase
  | [] => [c]
  | d :: ds => if c.id.isSome && d.id == c.id then c :: ds else d :: upsertInto c ds

/-- Add a case, in the place of the one with its id if there is one. -/
def upsert (g : Catalog) (c : TestCase) : Catalog := ⟨upsertInto c g.cases⟩

def get? (g : Catalog) (id : String) : Option TestCase := g.cases.find? (·.hasId id)

/-- Take the first case with an id out of a list; that case, and what is left. -/
def takeFrom (id : String) : List TestCase → Option TestCase × List TestCase
  | [] => (none, [])
  | c :: cs =>
    if c.hasId id then (some c, cs)
    else let (taken, left) := takeFrom id cs; (taken, c :: left)

/-- Take out the case with an id; the case, and the catalog without it. -/
def take (g : Catalog) (id : String) : Option TestCase × Catalog :=
  let (taken, left) := takeFrom id g.cases
  (taken, ⟨left⟩)

/-- The catalog without the case with an id. -/
def remove (g : Catalog) (id : String) : Catalog := (g.take id).2

/-- The enabled cases that a filter admits, in the order in which they run. -/
def select (g : Catalog) (f : TestFilter) : List TestCase :=
  sortBy (fun c d => !decide (d.Before c)) (g.cases.filter fun c => c.enabled && f.admits c)

/-- The enabled cases in the order in which they run. -/
def enabled (g : Catalog) : List TestCase := g.select {}

end Catalog

end DocumentRules
