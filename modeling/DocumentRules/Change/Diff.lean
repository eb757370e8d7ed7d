/-
The difference of two documents.

Two maps are compared entry by entry and two lists position by position; any other pair
of values is one replacement, unless the two are equal.  The changes are listed in the
order of their paths.
-/
import DocumentRules.Change.Mutation
import DocumentRules.Order.Sorting

namespace DocumentRules

namespace Value

/-- The members of a longer list, from position `i` on, as additions. -/
def addedItems (i : Nat) : List Value → List Mutation
  | [] => []
  | v :: vs => .added [.index i] v :: addedItems (i + 1) vs

mutual

/-- The changes that lead from one value to another, with paths from these values on. -/
def changes : Value → Value → List Mutation
  | .map old, .map new =>
    entryChanges old new ++
      (new.filter fun e => (Entries.find? e.1 old).isNone).map fun e => .added [.key e.1] e.2
  | .list old, .list new => itemChanges 0 old new
  | u, v => if equal u v then [] else [.replaced [] u v]

def entryChanges : List (String × Value) → List (String × Value) → List Mutation
  | [], _ => []
  | (k, u) :: old, new =>
    (match Entries.find? k new with
      | some v => (changes u v).map (Mutation.under (.key k))
      | none => [.removed [.key k] u]) ++ entryChanges old new

/-- The changes between two lists whose first members are at position `i`. -/
def itemChanges (i : Nat) : List Value → List Value → List Mutation
  | [], new => addedItems i new
  | u :: old, [] => .removed [.index i] u :: itemChanges (i + 1) old []
  | u :: old, v :: new =>
    (changes u v).map (Mutation.under (.index i)) ++ itemChanges (i + 1) old new

end

end Value

/-- The changes that lead from one document to another, in the order of their paths. -/
def diff (before after : Value) : List Mutation :=
  sortBy (fun m n => !decide (n.path < m.path)) (Value.changes before after)

/-- The changes that a rule made. -/
def diffBy (rule : String) (before after : Value) : List Mutation :=
  (diff before after).map (Mutation.byRule rule)

end DocumentRules
