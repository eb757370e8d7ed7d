/-
Rule bodies.

A body turns a document into a new document, or fails.  Bodies act in a monad `m`: a body
that is a function of the document acts in `Id`, and one with effects of its own may give
different answers to the same document, or raise an overflow.
-/
import DocumentRules.Block.Rule

namespace DocumentRules

inductive BodyKind where
  /-- One of the rules that every registry may have. -/
  | builtIn
  | blocks
  /-- Handed in by the embedding program. -/
  | native
  deriving DecidableEq

/-- The executable part of a rule. -/
structure Body (m : Type → Type) where
  kind : BodyKind
  /-- The text that identifies the body. -/
  source : String
  invoke : Document → m (Except Failure Document)
  /-- What the body reads, as far as it tells. -/
  inferredReads : OrderedSet Path := ∅
  /-- What the body writes, as far as it tells. -/
  inferredWrites : OrderedSet Path := ∅

namespace Body

variable {m : Type → Type}

def ofBlocks [Pure m] (r : BlockRule) : Body m where
  kind := .blocks
  source := r.source
  invoke d := pure (r.run d)
  inferredReads := r.reads
  inferredWrites := r.writes

/-- The blocks, where they can overflow. -/
def ofBlocksWithin [Monad m] [MonadExceptOf Overflow m] (r : BlockRule) : Body m :=
  { ofBlocks (m := m) r with invoke := fun d => Overflow.lift (r.runWithin d) }

/-- A body handed in by the embedding program. -/
def native (source : String) (invoke : Document → m (Except Failure Document)) : Body m where
  kind := .native
  source := source
  invoke := invoke

end Body

end DocumentRules
