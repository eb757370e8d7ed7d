/-
Registries.

A registry holds the rules of a finished draft in the order of their names (and ids), and finds
them through an index of the ids and one of the names.
Overrides give a new registry, in which they take the place of the rules with their ids
or are added; they are checked like any other rule, but may also stand in for built-in
rules.
-/
import DocumentRules.Order.Sorting
import DocumentRules.Registry.Draft

namespace DocumentRules

/-- Rules in the order of their names. -/
structure Registry (m : Type → Type) where
  rules : List (Rule m)

namespace Rule

variable {m : Type → Type}

/-- The order of rules in a registry: by name, then by id. -/
def Before (r s : Rule m) : Prop := r.name < s.name ∨ (r.name = s.name ∧ r.id < s.id)

instance (r s : Rule m) : Decidable (Before r s) := inferInstanceAs (Decidable (_ ∨ _))

end Rule

def Draft.build {m : Type → Type} (d : Draft m) : Registry m :=
  ⟨sortBy (fun r s => !decide (s.Before r)) d.rules⟩

namespace Registry

variable {m : Type → Type}

def empty : Registry m := ⟨[]⟩

/-- The positions of the rules by their ids. -/
def byId (g : Registry m) : List (String × Nat) := Entries.positions (g.rules.map (·.id))

/-- The positions of the rules by their names. -/
def byName (g : Registry m) : List (String × Nat) := Entries.positions (g.rules.map (·.name))

/-- The rule at the position that an index has for a key. -/
def lookUp? (g : Registry m) (index : List (String × Nat)) (key : String) : Option (Rule m) :=
  (Entries.find? key index).bind (g.rules[·]?)

def get? (g : Registry m) (id : String) : Option (Rule m) := g.lookUp? g.byId id

def getByName? (g : Registry m) (name : String) : Option (Rule m) := g.lookUp? g.byName name

/-- The rules that run. -/
def enabledRules (g : Registry m) : List (Rule m) := g.rules.filter (·.enabled)

def edit (g : Registry m) : Draft m := ⟨g.rules⟩

/-- The registry in which overrides take the place of the rules with their ids. -/
def withOverrides (g : Registry m) (overrides : List (Rule m)) :
    Except RegistryError (Registry m) :=
  -- All rules are registered anew, so that the overrides meet every check.
  let kept := g.rules.filter fun r => !overrides.any (·.id == r.id)
  (Draft.empty.addAll (kept ++ overrides)).map Draft.build

end Registry

end DocumentRules
