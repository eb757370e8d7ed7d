/-
Changes between two documents.

A mutation says what happened at one path: a value was added, replaced or removed.  It
may be attributed to a rule.

* `Mutation.touchedLeaves` — every leaf of the old and of the new value;
* `Mutation.touches` — the change reaches a leaf at or below a path.

As JSON a mutation has the fields `path`, `op`, `from`, `to` and `rule`; the last three are
left out where there is nothing to say, and null counts as nothing when they are read.
-/
import DocumentRules.Document.Access
import DocumentRules.Document.Json
import DocumentRules.Document.PathText
import DocumentRules.Json.Record
import DocumentRules.Order.OrderedSet

namespace DocumentRules

inductive MutationOp where
  | add
  | replace
  | remove
  deriving DecidableEq

namespace MutationOp

def text : MutationOp → String
  | .add => "add"
  | .replace => "replace"
  | .remove => "remove"

def ofText? (s : String) : Option MutationOp :=
  if s = "add" then some .add
  else if s = "replace" then some .replace
  else if s = "remove" then some .remove
  else none

end MutationOp

structure Mutation where
  path : Path
  op : MutationOp
  /-- The value that was there; none for an addition. -/
  old : Option Value
  /-- The value that is there now; none for a removal. -/
  new : Option Value
  rule : Option String

namespace Mutation

def added (p : Path) (v : Value) : Mutation := ⟨p, .add, none, some v, none⟩

def replaced (p : Path) (u v : Value) : Mutation := ⟨p, .replace, some u, some v, none⟩

def removed (p : Path) (u : Value) : Mutation := ⟨p, .remove, some u, none, none⟩

/-- The same change one step further down. -/
def under (s : Step) (m : Mutation) : Mutation := { m with path := s :: m.path }

def byRule (id : String) (m : Mutation) : Mutation := { m with rule := some id }

/-- The paths of all leaves that the change touches. -/
def touchedLeaves (m : Mutation) : OrderedSet Path :=
  .ofList ((m.old.toList ++ m.new.toList).flatMap (Value.leavesFrom m.path))

/-- The change touches a leaf at or below the path. -/
def touches (m : Mutation) (p : Path) : Bool := m.touchedLeaves.toList.any (Path.covers p)

/-- Two values that may be missing are the same. -/
def sameValue : Option Value → Option Value → Bool
  | none, none => true
  | some u, some v => u.equal v
  | _, _ => false

def equal (m n : Mutation) : Bool :=
  m.path == n.path && m.op == n.op && sameValue m.old n.old && sameValue m.new n.new &&
    m.rule == n.rule

/-- The change as a line of text. -/
def display (m : Mutation) : String :=
  let head := m.op.text ++ " " ++ Path.text m.path
  match m.old, m.new with
  | some u, some v => head ++ ": " ++ u.display ++ " -> " ++ v.display
  | none, some v => head ++ ": " ++ v.display
  | some u, none => head ++ " (was " ++ u.display ++ ")"
  | none, none => head

end Mutation

/-! ### JSON -/

def Path.ofJson? (j : Json) : Option Path :=
  j.string?.bind fun s => (Path.parse s).toOption

def Path.toJson (p : Path) : Json := .string (Path.text p)

namespace Mutation

def toJson (m : Mutation) : Json :=
  .object ([("path", Path.toJson m.path), ("op", .string m.op.text)] ++
    Json.optional "from" (m.old.map Value.toJson) ++
    Json.optional "to" (m.new.map Value.toJson) ++
    Json.optional "rule" (m.rule.map .string))

def ofJson? (j : Json) : Option Mutation := do
  let r ← Record.ofJson? ["path", "op", "from", "to", "rule"] j
  let path ← r.required "path" Path.ofJson?
  let op ← r.required "op" fun j => j.word?.bind MutationOp.ofText?
  let old ← r.optional "from" (some ∘ Value.ofJson)
  let new ← r.optional "to" (some ∘ Value.ofJson)
  let rule ← r.optional "rule" Json.string?
  return ⟨path, op, old, new, rule⟩

end Mutation

end DocumentRules
