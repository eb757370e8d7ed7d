/-
Paths into documents.

A path is a list of steps, each the name of a map entry or the position of a list
member; the empty path is the root.  Paths are ordered step by step, names before
positions, so that a path comes directly before the paths it covers.

* **`Path.covers_iff`** — covering is being an initial part;
* **`Path.overlaps_iff`** — overlapping is covering in one of the two directions;
* the instance **`StrictOrder Step`**, from which paths inherit their order.
-/
import DocumentRules.Order.Strict

namespace DocumentRules

inductive Step where
  /-- The entry of a map with this name. -/
  | key (name : String)
  /-- The member of a list at this position, counted from zero. -/
  | index (position : Nat)
  deriving DecidableEq, Inhabited

namespace Step

/-- Names come before positions. -/
def Less : Step → Step → Prop
  | .key a, .key b => a < b
  | .key _, .index _ => True
  | .index _, .key _ => False
  | .index i, .index j => i < j

instance : LT Step := ⟨Less⟩

instance : DecidableLT Step := fun a b =>
  match a, b with
  | .key a, .key b => inferInstanceAs (Decidable (a < b))
  | .key _, .index _ => isTrue trivial
  | .index _, .key _ => isFalse id
  | .index i, .index j => inferInstanceAs (Decidable (i < j))

@[simp] theorem key_lt_key {a b : String} : Step.key a < Step.key b ↔ a < b := Iff.rfl
@[simp] theorem key_lt_index {a : String} {i : Nat} : Step.key a < Step.index i := trivial
@[simp] theorem not_index_lt_key {i : Nat} {a : String} : ¬ Step.index i < Step.key a := id
@[simp] theorem index_lt_index {i j : Nat} : Step.index i < Step.index j ↔ i < j := Iff.rfl

instance : StrictOrder Step where
  irrefl a := by
    match a with
    | .key name => exact StrictOrder.irrefl name
    | .index i => exact Nat.lt_irrefl i
  trans {a b c} h h' := by
    match a, b, c with
    | .key _, .key _, .key _ => exact StrictOrder.trans (α := String) h h'
    | .key _, .key _, .index _ => trivial
    | .key _, .index _, .index _ => trivial
    | .index _, .index _, .index _ => exact Nat.lt_trans h h'
  connected {a b} h h' := by
    match a, b with
    | .key _, .key _ => exact congrArg Step.key (StrictOrder.connected (α := String) h h')
    | .key _, .index _ => exact absurd trivial h
    | .index _, .key _ => exact absurd trivial h'
    | .index _, .index _ =>
      exact congrArg Step.index (Nat.le_antisymm (Nat.not_lt.1 h') (Nat.not_lt.1 h))

end Step

/-- A path into a document; the empty path is the root. -/
abbrev Path := List Step

namespace Path

def root : Path := []

/-- The path one step up; the root has none. -/
def parent (p : Path) : Option Path := if p.isEmpty then none else some p.dropLast

/-- `p` covers `q`: what `q` addresses lies at or below `p`. -/
def covers (p q : Path) : Bool := p.isPrefixOf q

/-- One of the two paths covers the other. -/
def overlaps (p q : Path) : Bool := covers p q || covers q p

theorem covers_iff {p q : Path} : covers p q = true ↔ p <+: q := List.isPrefixOf_iff_prefix

theorem overlaps_iff {p q : Path} : overlaps p q = true ↔ p <+: q ∨ q <+: p := by
  simp [overlaps, covers_iff]

theorem overlaps_comm (p q : Path) : overlaps p q = overlaps q p := Bool.or_comm ..

/-- The greatest position a list member can have: one more would need a list longer than
any list can be. -/
def lastPosition : Nat := UInt64.size - 1

/-- No step needs a list of more than `lastPosition` members. -/
def isAddressable (p : Path) : Bool :=
  p.all fun
    | .key _ => true
    | .index i => i < lastPosition

end Path

end DocumentRules
