/-
Rules made of blocks.

A block list is compiled once, with its regular expressions, and then run on documents:
the blocks act one after another, each on what the ones before it left.

* `BlockRule.compile` — refuses the first pattern that is no regular expression;
* `BlockRule.run`, `BlockRule.runWithin` — the document after all blocks, or the first failure;
* `BlockRule.reads`, `BlockRule.writes` — what the blocks read and may assign.
-/
import DocumentRules.Block.Json
import DocumentRules.Order.OrderedSet

namespace DocumentRules

/-- The pattern of a block is no regular expression. -/
structure InvalidPattern where
  pattern : String
  /-- Why it is none. -/
  reason : String
  deriving DecidableEq

/-- Blocks with the compiled patterns of those that have one. -/
structure BlockRule where
  steps : List (Block × Option Regex)

namespace BlockRule

/-- Compile the pattern of a block. -/
def compileBlock : Block → Except InvalidPattern (Block × Option Regex)
  | .extract field pattern target group =>
    match Regex.compile pattern with
    | .ok r => .ok (.extract field pattern target group, some r)
    | .error reason => .error ⟨pattern, reason⟩
  | b => .ok (b, none)

def compileSteps : List Block → Except InvalidPattern (List (Block × Option Regex))
  | [] => .ok []
  | b :: bs =>
    match compileBlock b with
    | .error e => .error e
    | .ok step =>
      match compileSteps bs with
      | .error e => .error e
      | .ok steps => .ok (step :: steps)

/-- Compile a block list. The error is about the first pattern that is no regular expression. -/
def compile (blocks : List Block) : Except InvalidPattern BlockRule :=
  (compileSteps blocks).map (⟨·⟩)

def blocks (r : BlockRule) : List Block := r.steps.map (·.1)

def reads (r : BlockRule) : OrderedSet Path := .ofList (r.blocks.flatMap Block.reads)

/-- The fields that some block may assign. -/
def writes (r : BlockRule) : OrderedSet Path := .ofList (r.blocks.flatMap Block.writes)

def source (r : BlockRule) : String := Block.sourceText r.blocks

def runSteps : List (Block × Option Regex) → Document → Except Failure Document
  | [], d => .ok d
  | (b, regex) :: steps, d =>
    match b.effect regex d with
    | .error e => .error e
    | .ok none => runSteps steps d
    | .ok (some a) => runSteps steps (d.assign a)

/-- The document after all blocks, or the first failure. -/
def run (r : BlockRule) (d : Document) : Except Failure Document := runSteps r.steps d

def runStepsWithin :
    List (Block × Option Regex) → Document → Except Overflow (Except Failure Document)
  | [], d => .ok (.ok d)
  | (b, regex) :: steps, d =>
    match b.effect regex d with
    | .error e => .ok (.error e)
    | .ok none => runStepsWithin steps d
    | .ok (some a) => do runStepsWithin steps (← d.setWithin a.field a.value)

/-- As `run`, unless a block assigns a position that no list can have. -/
def runWithin (r : BlockRule) (d : Document) : Except Overflow (Except Failure Document) :=
  runStepsWithin r.steps d

end BlockRule

end DocumentRules
