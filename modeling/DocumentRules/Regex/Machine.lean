/-
Matching.

A pattern is compiled, back to front, into a machine: every node knows the nodes that
follow it.  The machine is run over the text with a list of threads in order of
preference; a node is visited at most once at each position, by the thread of highest
preference, so a run takes time proportional to the sizes of machine and text.

The match found is the leftmost one, and among those that start there the one that the
order of the alternatives and the greed of the repetitions prefer.
-/
import DocumentRules.Regex.Parser

namespace DocumentRules.Regex

/-- A node of the machine, with the numbers of the nodes that may follow. -/
inductive Node where
  | char (c : Char) (next : Nat)
  | set (s : CharSet) (next : Nat)
  | look (l : Look) (next : Nat)
  /-- Note the position in a slot. -/
  | mark (slot next : Nat)
  /-- Go on at any of these, the first being preferred. -/
  | branch (targets : List Nat)
  | matched

abbrev Nodes := Array Node

namespace Nodes

/-- Append a node; its number and the nodes. -/
def add (nodes : Nodes) (n : Node) : Nat × Nodes := (nodes.size, nodes.push n)

/-- A choice between going into a part and going on, with the preferred way first. -/
def fork (greedy : Bool) (part next : Nat) : Node :=
  .branch (if greedy then [part, next] else [next, part])

/-- Repeat a compilation step `count` times, from back to front. -/
def chain (step : Nat → Nodes → Nat × Nodes) : (count next : Nat) → Nodes → Nat × Nodes
  | 0, next, nodes => (next, nodes)
  | count + 1, next, nodes =>
    let (start, nodes) := step next nodes
    chain step count start nodes

/-- Parts that may each be left out together with all behind them. -/
def optionalChain (step : Nat → Nodes → Nat × Nodes) (greedy : Bool) (finish : Nat) :
    (count next : Nat) → Nodes → Nat × Nodes
  | 0, next, nodes => (next, nodes)
  | count + 1, next, nodes =>
    let (start, nodes) := step next nodes
    let (start, nodes) := nodes.add (fork greedy start finish)
    optionalChain step greedy finish count start nodes

/-- A part once or more often; the number of the first node of the part and of the fork
behind it. -/
def loop (step : Nat → Nodes → Nat × Nodes) (greedy : Bool) (next : Nat) (nodes : Nodes) :
    Nat × Nat × Nodes :=
  let (back, nodes) := nodes.add .matched
  let (start, nodes) := step back nodes
  (start, back, nodes.setIfInBounds back (fork greedy start next))

mutual

/-- Compile a pattern in front of the node `next`; the number of its first node. -/
def compile : Pattern → (next : Nat) → Nodes → Nat × Nodes
  | .empty, next, nodes => (next, nodes)
  | .char c, next, nodes => nodes.add (.char c next)
  | .set s, next, nodes => nodes.add (.set s next)
  | .look l, next, nodes => nodes.add (.look l next)
  | .group index _ part, next, nodes =>
    let (finish, nodes) := nodes.add (.mark (2 * index + 1) next)
    let (start, nodes) := compile part finish nodes
    nodes.add (.mark (2 * index) start)
  | .repeated low (some high) greedy part, next, nodes =>
    let (start, nodes) := optionalChain (compile part) greedy next (high - low) next nodes
    chain (compile part) low start nodes
  | .repeated 0 none greedy part, next, nodes =>
    let (start, back, nodes) := loop (compile part) greedy next nodes
    if part.mayBeEmpty then nodes.add (fork greedy start next) else (back, nodes)
  | .repeated (low + 1) none greedy part, next, nodes =>
    let (start, _, nodes) := loop (compile part) greedy next nodes
    chain (compile part) low start nodes
  | .sequence parts, next, nodes => compileSequence parts next nodes
  | .choice parts, next, nodes =>
    let (targets, nodes) := compileChoice parts next nodes
    nodes.add (.branch targets)

def compileSequence : List Pattern → (next : Nat) → Nodes → Nat × Nodes
  | [], next, nodes => (next, nodes)
  | p :: ps, next, nodes =>
    let (start, nodes) := compileSequence ps next nodes
    compile p start nodes

def compileChoice : List Pattern → (next : Nat) → Nodes → List Nat × Nodes
  | [], _, nodes => ([], nodes)
  | p :: ps, next, nodes =>
    let (start, nodes) := compile p next nodes
    let (targets, nodes) := compileChoice ps next nodes
    (start :: targets, nodes)

end

end Nodes

/-- The two characters beside a position. -/
structure Beside where
  before : Option Char
  after : Option Char

def isWordChar (c : Char) : Bool := CharSet.contains .word c

def Look.holds (l : Look) (b : Beside) : Bool :=
  let wordBefore := b.before.any isWordChar
  let wordAfter := b.after.any isWordChar
  match l with
  | .start => b.before.isNone
  | .finish => b.after.isNone
  | .lineStart => b.before.isNone || b.before == some '\n'
  | .lineFinish => b.after.isNone || b.after == some '\n'
  | .breakStart =>
    b.before.isNone || b.before == some '\n' || (b.before == some '\r' && b.after != some '\n')
  | .breakFinish =>
    b.after.isNone || b.after == some '\r' || (b.after == some '\n' && b.before != some '\r')
  | .wordBoundary => wordBefore != wordAfter
  | .notWordBoundary => wordBefore == wordAfter
  | .wordStart => !wordBefore && wordAfter
  | .wordFinish => wordBefore && !wordAfter
  | .wordStartHalf => !wordBefore
  | .wordFinishHalf => !wordAfter

/-- The positions noted so far. -/
abbrev Slots := Array (Option Nat)

/-- A thread stands at a node that reads a character or ends the match. -/
structure Thread where
  node : Nat
  slots : Slots

/-- The threads at these nodes, in front of others. -/
def Thread.atEach (slots : Slots) (behind : List Thread) : List Nat → List Thread
  | [] => behind
  | n :: ns => ⟨n, slots⟩ :: atEach slots behind ns

/-- The threads at a position, in order of preference (last first). -/
structure Threads where
  list : List Thread
  /-- For every node, the number of the last position at which it was visited, counted from
  one. -/
  visited : Array Nat

end DocumentRules.Regex

namespace DocumentRules

structure Regex where
  nodes : Regex.Nodes
  start : Nat
  groups : Nat

namespace Regex

/-- The greatest size of a compiled pattern, in bytes. -/
def sizeLimit : Nat := 10 * 1024 * 1024

/-- Compile a regular expression, or say why the text is malformed or too large. -/
def compile (text : String) : Except String Regex := do
  let (p, groups) ← parse text
  let whole := Pattern.group 0 none p
  if sizeLimit < whole.memory + Pattern.nodeSize + whole.tableMemory then
    throw "compiled regex is too big"
  let (start, nodes) := Nodes.compile whole 0 #[.matched]
  return ⟨nodes, start, groups⟩

def compile? (text : String) : Option Regex := (compile text).toOption

/-- The number of steps in which all nodes can be visited once. -/
def visitBound (r : Regex) : Nat :=
  1 + r.nodes.foldl (fun n node => n + match node with
    | .branch targets => 1 + targets.length
    | _ => 2) 0

/-- Follow the nodes that read no character, starting from the pending threads, and collect
the threads that wait for one. -/
def follow (r : Regex) (b : Beside) (position : Nat) :
    (fuel : Nat) → (pending : List Thread) → Threads → Threads
  | 0, _, ts => ts
  | _, [], ts => ts
  | fuel + 1, t :: pending, ts =>
    if ts.visited.getD t.node (position + 1) = position + 1 then
      follow r b position fuel pending ts
    else
      let ts := { ts with visited := ts.visited.setIfInBounds t.node (position + 1) }
      match r.nodes[t.node]? with
      | some (.branch targets) =>
        follow r b position fuel (Thread.atEach t.slots pending targets) ts
      | some (.look l next) =>
        if l.holds b then follow r b position fuel (⟨next, t.slots⟩ :: pending) ts
        else follow r b position fuel pending ts
      | some (.mark slot next) =>
        follow r b position fuel (⟨next, t.slots.setIfInBounds slot (some position)⟩ :: pending) ts
      | _ => follow r b position fuel pending { ts with list := t :: ts.list }

/-- Start another thread at a position, behind all others. -/
def attempt (r : Regex) (bound : Nat) (b : Beside) (position : Nat) (ts : Threads) : Threads :=
  follow r b position bound [⟨r.start, Array.replicate (2 * r.groups) none⟩] ts

/-- Let the threads, in order, read the character after the position. A thread that has
matched ends the turn; its slots are returned. -/
def turn (r : Regex) (bound : Nat) (c : Option Char) (b : Beside) (position : Nat) :
    List Thread → Threads → Threads × Option Slots
  | [], next => (next, none)
  | t :: ts, next =>
    match r.nodes[t.node]?, c with
    -- The threads behind this one are less preferred and are given up.
    | some .matched, _ => (next, some t.slots)
    | some (.char d n), some c =>
      turn r bound (some c) b position ts
        (if c = d then follow r b position bound [⟨n, t.slots⟩] next else next)
    | some (.set s n), some c =>
      turn r bound (some c) b position ts
        (if s.contains c then follow r b position bound [⟨n, t.slots⟩] next else next)
    | _, _ => turn r bound c b position ts next

/-- Run over the rest of a text. `best` is the best match found so far. -/
def run (r : Regex) (bound : Nat) (before : Option Char) (position : Nat) (ts : Threads)
    (best : Option Slots) : List Char → Option Slots
  | [] =>
    let b : Beside := ⟨before, none⟩
    let ts := if best.isNone then r.attempt bound b position ts else ts
    (turn r bound none b position ts.list.reverse ⟨[], ts.visited⟩).2.or best
  | c :: cs =>
    -- While nothing has matched, a new attempt starts here, behind all older ones.
    let ts := if best.isNone then r.attempt bound ⟨before, some c⟩ position ts else ts
    if ts.list.isEmpty && best.isSome then best
    else
      let (next, found) :=
        turn r bound (some c) ⟨some c, cs.head?⟩ (position + 1) ts.list.reverse ⟨[], ts.visited⟩
      run r bound (some c) (position + 1) next (found.or best) cs

/-- The positions of the groups of the leftmost match. -/
def search (r : Regex) (text : List Char) : Option Slots :=
  run r r.visitBound none 0 ⟨[], Array.replicate r.nodes.size 0⟩ none text

def isMatch (r : Regex) (text : String) : Bool := (r.search text.toList).isSome

/-- The text of a group of the leftmost match, if the group took part in it. -/
def capture? (r : Regex) (text : String) (group : Nat) : Option String := do
  let chars := text.toList
  let slots ← r.search chars
  let start ← slots.getD (2 * group) none
  let finish ← slots.getD (2 * group + 1) none
  return String.ofList ((chars.drop start).take (finish - start))

end Regex

end DocumentRules
