/-
Workspaces.

A workspace is a JSON record with the rules that a user wrote, as block lists, the test cases,
the suggestions already stored and the configuration of further ones.

* `Workspace.ofJson?` — reads a workspace;
* `Workspace.shape` — the parts of its text that count;
* `Workspace.session` — compiles and registers its rules.
-/
import DocumentRules.Json.Basic
import DocumentRules.Session.Basic
import DocumentRules.Suggestion.Json

namespace DocumentRules

/-- A rule as a user wrote it. Without declarations, those of the blocks hold. -/
structure RuleEntry where
  id : String
  name : String
  blocks : List Block
  reads : List String
  writes : List String
  enabled : Bool
  version : Option String
  description : Option String

namespace RuleEntry

def fieldNames : List String :=
  ["id", "name", "blocks", "reads", "writes", "enabled", "version", "description"]

def ofJson? (j : Json) : Option RuleEntry := do
  let r ← Record.ofJson? fieldNames j
  let id ← r.required "id" Json.string?
  let name ← r.required "name" Json.string?
  let blocks ← r.required "blocks" (Json.list? Block.ofJson?)
  let reads ← r.defaulted "reads" (Json.list? Json.string?) []
  let writes ← r.defaulted "writes" (Json.list? Json.string?) []
  let enabled ← r.defaulted "enabled" Json.bool? true
  let version ← r.optional "version" Json.string?
  let description ← r.optional "description" Json.string?
  return ⟨id, name, blocks, reads, writes, enabled, version, description⟩

/-- What the entry says about its rule, whose blocks are compiled. -/
def spec {m : Type → Type} [Monad m] [MonadExceptOf Overflow m] (e : RuleEntry)
    (body : BlockRule) : Rule.Spec m where
  id := e.id
  name := e.name
  body := .ofBlocksWithin body
  reads := e.reads
  writes := e.writes
  version := e.version.getD defaultVersion
  enabled := e.enabled
  description := e.description

end RuleEntry

structure Workspace where
  rules : List RuleEntry
  cases : List TestCase
  knownHashes : List String
  config : Option SuggestConfig

inductive WorkspaceError where
  | invalidBlock (rule : String) (e : RegistryError)
  | unregistered (rule : String) (e : RegistryError)

namespace Workspace

/-- The parts of the text that count. Of a block everything counts, known field or not. -/
def shape : Json.Shape :=
  .record [
    ("rules", .list (.ofNames RuleEntry.fieldNames)),
    ("tests", .list (.ofNames TestCase.fieldNames)),
    ("suggestions", .list Suggestion.shape),
    ("suggest", .ofNames SuggestConfig.fieldNames)]

def ofJson? (j : Json) : Option Workspace := do
  let r ← Record.ofJson? ["rules", "tests", "suggestions", "suggest"] j
  let rules ← r.defaulted "rules" (Json.list? RuleEntry.ofJson?) []
  let cases ← r.defaulted "tests" (Json.list? TestCase.ofJson?) []
  let known ← r.defaulted "suggestions" (Json.list? Suggestion.hashOfJson?) []
  let config ← r.optional "suggest" SuggestConfig.ofJson?
  return ⟨rules, cases, known, config⟩

variable {m : Type → Type} [Monad m] [MonadExceptOf Overflow m]

/-- Compile and register entries one after another. -/
def register (draft : Draft m) : List RuleEntry → Except WorkspaceError (Draft m)
  | [] => .ok draft
  | e :: es =>
    match BlockRule.compile e.blocks with
    | .error invalid => .error (.invalidBlock e.id (.invalidBlock invalid))
    | .ok body =>
      match draft.addSpec (e.spec body) with
      | .error error => .error (.unregistered e.id error)
      | .ok draft => register draft es

def session (w : Workspace) : Except WorkspaceError (Session m) :=
  (register .empty w.rules).map fun draft => {
    rules := .ok (draft.build.rules.filter (!·.builtIn))
    cases := .ok w.cases
    knownHashes := .ok (.ofList w.knownHashes)
    config := w.config.getD {} }

end Workspace

end DocumentRules
