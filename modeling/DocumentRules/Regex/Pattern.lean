/-
Regular expressions as trees.

The smart constructors keep the trees small: a sequence or an alternative of one part is
that part, `x{0}` is empty and `x{1}` is `x`.  `nestingWithin` bounds the depth of a
tree; `memory` counts what the machine of a pattern takes, and `tableMemory` what the table of
its groups does.
-/
import DocumentRules.Regex.CharSet

namespace DocumentRules.Regex

/-- Conditions on the two characters beside a position. -/
inductive Look where
  | start
  | finish
  /-- After a line feed or at the start. -/
  | lineStart
  /-- Before a line feed or at the end. -/
  | lineFinish
  /-- After a line break or at the start; a carriage return and a line feed are not parted. -/
  | breakStart
  /-- Before a line break or at the end; a carriage return and a line feed are not parted. -/
  | breakFinish
  | wordBoundary
  | notWordBoundary
  | wordStart
  | wordFinish
  /-- No word character in front. -/
  | wordStartHalf
  /-- No word character behind. -/
  | wordFinishHalf

inductive Pattern where
  | empty
  | char (c : Char)
  | set (s : CharSet)
  | look (l : Look)
  | repeated (low : Nat) (high : Option Nat) (greedy : Bool) (part : Pattern)
  | group (index : Nat) (name : Option String) (part : Pattern)
  | sequence (parts : List Pattern)
  | choice (parts : List Pattern)
  deriving Inhabited

namespace Pattern

/-- One part after the other. -/
def ofSequence : List Pattern → Pattern
  | [] => .empty
  | [p] => p
  | ps => .sequence ps

/-- The first of the parts that matches; there is at least one. -/
def ofChoice : List Pattern → Pattern
  | [p] => p
  | ps => .choice ps

/-- A part, repeated. -/
def ofRepetition (low : Nat) (high : Option Nat) (greedy : Bool) (part : Pattern) : Pattern :=
  if low = 0 ∧ high = some 0 then .empty
  else if low = 1 ∧ high = some 1 then part
  else .repeated low high greedy part

mutual

/-- The pattern may match without consuming a character. -/
def mayBeEmpty : Pattern → Bool
  | .empty | .look _ => true
  | .char _ | .set _ => false
  | .repeated low _ _ part => low == 0 || mayBeEmpty part
  | .group _ _ part => mayBeEmpty part
  | .sequence parts => allMayBeEmpty parts
  | .choice parts => someMayBeEmpty parts

def allMayBeEmpty : List Pattern → Bool
  | [] => true
  | p :: ps => mayBeEmpty p && allMayBeEmpty ps

def someMayBeEmpty : List Pattern → Bool
  | [] => false
  | p :: ps => mayBeEmpty p || someMayBeEmpty ps

end

mutual

/-- The tree is at most `limit` levels deep below its root. -/
def nestingWithin (limit : Nat) : Pattern → Bool
  | .repeated _ _ _ part | .group _ _ part => 0 < limit && nestingWithin (limit - 1) part
  | .sequence parts | .choice parts => 0 < limit && allNestingWithin (limit - 1) parts
  | _ => true

def allNestingWithin (limit : Nat) : List Pattern → Bool
  | [] => true
  | p :: ps => nestingWithin limit p && allNestingWithin limit ps

end

/-- What a node of the machine takes, in bytes. -/
def nodeSize : Nat := 32

def branchSize (targets : Nat) : Nat := nodeSize + 4 * targets

mutual

/-- What the machine of a pattern takes, in bytes. -/
def memory : Pattern → Nat
  | .empty | .char _ | .look _ => nodeSize
  | .set s => nodeSize + 8 * s.length
  | .group _ _ part => 2 * nodeSize + memory part
  | .repeated 0 (some 1) _ part => branchSize 2 + nodeSize + memory part
  | .repeated low none _ part =>
    if low = 0 then
      if mayBeEmpty part then 2 * branchSize 2 + nodeSize + memory part
      else branchSize 2 + memory part
    else branchSize 2 + low * memory part
  | .repeated low (some high) _ part =>
    if low = high then max nodeSize (low * memory part)
    else max nodeSize (low * memory part) + nodeSize +
      (high - low) * (branchSize 2 + memory part)
  | .sequence parts => allMemory parts
  | .choice parts => branchSize parts.length + nodeSize + allMemory parts

def allMemory : List Pattern → Nat
  | [] => 0
  | p :: ps => memory p + allMemory ps

end

mutual

def groups : Pattern → List (Nat × Option String)
  | .empty | .char _ | .set _ | .look _ => []
  | .repeated _ _ _ part => groups part
  | .group index name part => (index, name) :: groups part
  | .sequence parts | .choice parts => allGroups parts

def allGroups : List Pattern → List (Nat × Option String)
  | [] => []
  | p :: ps => groups p ++ allGroups ps

end

def nameSize (name : Option String) : Nat :=
  match name with
  | some s => 4 + s.utf8ByteSize
  | none => 0

/-- What the table of the groups takes: a row for every number up to the greatest, and the
names. -/
def tableMemory (p : Pattern) : Nat :=
  p.groups.foldl (fun size g => size + nameSize g.2) 0 +
    16 * p.groups.foldl (fun rows g => max rows (g.1 + 1)) 0

end Pattern

end DocumentRules.Regex
