/-
Suggesting test cases.

For every declared write that nothing covers yet, the strategies propose inputs.  Each distinct
input runs once; it becomes a suggestion if the run touches one of the targets it was proposed
for and covers something new.

* `collectCandidates` — the inputs by their fingerprints, with what they were proposed for;
* `validate` — the suggestion that an input and its run give rise to;
* `suggest` — the suggestions, those with the highest score first, then by fingerprint.
-/
import DocumentRules.Catalog.Case
import DocumentRules.Coverage.Fact
import DocumentRules.Document.Fingerprint
import DocumentRules.Order.Sorting
import DocumentRules.Run.Basic
import DocumentRules.Suggestion.Strategy

namespace DocumentRules

structure Suggestion where
  rule : String
  /-- The declared write that the suggestion reaches. -/
  target : Path
  input : Document
  reason : String
  /-- What the run covers that was not covered. -/
  coverageDelta : Coverage
  score : Binary64
  hash : String
  strategy : String
  /-- What the run left at the covered paths. -/
  expected : Document

/-- The test case of a suggestion, which has no id yet. -/
def Suggestion.promote (s : Suggestion) (suite : Option String) (tags : Option (List String)) :
    TestCase where
  id := none
  name := s.reason
  enabled := true
  suite := some (suite.getD "ai")
  tags := .ofList (tags.getD ["ai"])
  priority := 3
  input := s.input
  expected := s.expected

/-- What an input was proposed for. -/
structure Proposal where
  rule : String
  target : Path
  reason : String
  strategy : String

/-- An input and everything it was proposed for. -/
structure ProposedInput where
  input : Document
  proposals : List Proposal

/-- A score: one for each new fact, and half a point more if the rule had no fact before. -/
def deltaScore (delta prior : Nat) : Binary64 :=
  (Binary64.ofNat delta).add (if prior = 0 then .ofQuotient false 1 2 else .zero false)

structure SuggestionEngine (m : Type → Type) where
  config : SuggestConfig
  strategies : List (Strategy m)
  /-- The score of a suggestion, by the number of new facts and of the facts that its rule had
  before. -/
  score : Nat → Nat → Binary64
  options : RunOptions

namespace SuggestionEngine

variable {m : Type → Type}

/-- The engine of a configuration, with further strategies. -/
def ofConfig (config : SuggestConfig) (custom : List (Strategy m) := [])
    (score : Nat → Nat → Binary64 := deltaScore) (options : RunOptions := .minimal) :
    SuggestionEngine m where
  config := config
  strategies :=
    Strategy.static :: ((if config.runs boundaryTag then [Strategy.boundary] else []) ++ custom)
  score := score
  options := options

/-- All proposals of the strategies, with their inputs. -/
def proposals (e : SuggestionEngine m) (rules : List (Rule m)) (coverage : Coverage) :
    List (Document × Proposal) :=
  rules.flatMap fun r =>
    (coverage.uncoveredWrites r).flatMap fun target =>
      e.strategies.flatMap fun s =>
        (s.candidates e.config r target).map fun c => (c.input, ⟨r.id, target, c.reason, s.tag⟩)

/-- Fill the reads of every rule that something is proposed for. -/
def fill (e : SuggestionEngine m) (rules : List (Rule m)) (coverage : Coverage) :
    Except Overflow Unit :=
  forM rules fun r =>
    if (coverage.uncoveredWrites r).isEmpty then return ()
    else discard (r.fill e.config.hints)

end SuggestionEngine

/-- Add a proposal to the inputs, which are in the order of their fingerprints. -/
def addProposal (pending : List (String × ProposedInput)) (hash : String) (input : Document)
    (p : Proposal) : List (String × ProposedInput) :=
  match Entries.find? hash pending with
  | some known => Entries.put hash { known with proposals := known.proposals ++ [p] } pending
  | none => Entries.put hash ⟨input, [p]⟩ pending

/-- The inputs by their fingerprints, less those whose fingerprint is known. -/
def collectCandidates (known : OrderedSet String) (proposals : List (Document × Proposal)) :
    List (String × ProposedInput) :=
  proposals.foldl
    (fun pending (input, p) =>
      let hash := input.fingerprint
      if hash ∈ known then pending else addProposal pending hash input p) []

/-- The path up to the first position in a list: lists are compared as a whole. -/
def outsideLists (p : Path) : Path :=
  p.takeWhile fun
    | .key _ => true
    | .index _ => false

/-- What a document holds at these paths, with the lists on the way as a whole. -/
def observedFragment (after : Document) (paths : List Path) : Document :=
  paths.foldl
    (fun fragment p =>
      match after.get? (outsideLists p) with
      | some v => fragment.set (outsideLists p) v
      | none => fragment) .emptyMap

/-- The run reached what the input was proposed for. -/
def RunResult.reaches (r : RunResult) (p : Proposal) : Bool :=
  r.mutations.any fun change => change.rule == some p.rule && change.touches p.target

/-- The suggestion that an input and its run give rise to. -/
def validate (score : Nat → Nat → Binary64) (coverage : Coverage) (hash : String)
    (candidate : ProposedInput) : Except RunError RunResult → Option Suggestion
  | .error _ => none
  | .ok r =>
    -- The first proposal that the run fulfils gives the suggestion its rule and its target.
    match candidate.proposals.find? r.reaches with
    | none => none
    | some p =>
      let delta := (Coverage.ofMutations r.mutations).filter fun f => !coverage.contains f
      if delta.size = 0 then none
      else some {
        rule := p.rule
        target := p.target
        input := candidate.input
        reason := p.reason
        coverageDelta := delta
        score := score delta.size (coverage.forRule p.rule).length
        hash := hash
        strategy := p.strategy
        expected := observedFragment r.after (delta.toList.map (·.path)) }

namespace Suggestion

/-- A suggestion ranks in front of another one: it has a higher score or, at equal scores, a
smaller fingerprint. -/
def ranksBefore (s t : Suggestion) : Bool :=
  match s.score.totalCompare t.score with
  | .gt => true
  | .lt => false
  | .eq => !decide (t.hash < s.hash)

end Suggestion

variable {m : Type → Type} [Monad m]

def validateAll (e : SuggestionEngine m) (s : Snapshot m) (coverage : Coverage) :
    List (String × ProposedInput) → m (List Suggestion)
  | [] => return []
  | (hash, candidate) :: rest => do
    let r ← run e.options s candidate.input
    let suggestions ← validateAll e s coverage rest
    return (validate e.score coverage hash candidate r).toList ++ suggestions

/-- The best suggestions, at most `limit`. Inputs with a known fingerprint are left out. -/
def SuggestionEngine.suggest (e : SuggestionEngine m) (s : Snapshot m) (coverage : Coverage)
    (known : OrderedSet String) (limit : Nat) : m (List Suggestion) := do
  let pending := collectCandidates known (e.proposals s.orderedRules coverage)
  return (sortBy Suggestion.ranksBefore (← validateAll e s coverage pending)).take limit

/-- As `suggest`, unless an input has a position that no list can have. -/
def SuggestionEngine.suggestWithin [MonadExceptOf Overflow m] (e : SuggestionEngine m)
    (s : Snapshot m) (coverage : Coverage) (known : OrderedSet String) (limit : Nat) :
    m (List Suggestion) := do
  Overflow.lift (e.fill s.orderedRules coverage)
  e.suggest s coverage known limit

end DocumentRules
