/-
Performing commands.

A command reads its files, prints a JSON value and may fail, before or after printing.

* `Command.perform` — the report of a command, given the texts of the files, unless it overflows;
* `CommandError.message`, `CommandError.causes` — what is said about a failure.
-/
import DocumentRules.Catalog.OutcomeJson
import DocumentRules.CommandLine.Command
import DocumentRules.Json.Reader
import DocumentRules.Workspace.Basic

namespace DocumentRules

inductive CommandError where
  /-- A file cannot be read; the role is what the file is to the command. -/
  | unreadable (role file : String)
  /-- A file does not hold what it should. -/
  | malformed (role file : String)
  | workspace (e : WorkspaceError)
  | session (e : SessionError)
  | testsFailed (failed total : Nat)
  | propertyViolated (failed trials : Nat)

namespace CommandError

def message : CommandError → String
  | .unreadable role file => "failed to read " ++ role ++ " " ++ file
  | .malformed role file => "invalid " ++ role ++ " " ++ file
  | .workspace (.invalidBlock rule _) => "rule " ++ rule ++ " has an invalid block"
  | .workspace (.unregistered rule _) => "failed to register rule " ++ rule
  | .session e => e.message
  | .testsFailed failed total => toString failed ++ " of " ++ toString total ++ " tests failed"
  | .propertyViolated failed trials =>
    toString failed ++ " of " ++ toString trials ++ " trials violated a property"

/-- The messages of the errors behind a failure. Those of files are not told. -/
def causes : CommandError → List String
  | .workspace (.invalidBlock _ e) | .workspace (.unregistered _ e) => [e.message]
  | .session (.registry e) => [e.message]
  | .session (.run e) => [e.message]
  | .session (.property e) => [e.message]
  | _ => []

def isAboutFile : CommandError → Bool
  | .unreadable .. | .malformed .. => true
  | _ => false

end CommandError

/-- What a command printed, and how it failed. -/
structure CommandReport where
  output : Option Json
  error : Option CommandError

namespace CommandReport

def failure (e : CommandError) : CommandReport := ⟨none, some e⟩

def success (output : Json) : CommandReport := ⟨some output, none⟩

end CommandReport

namespace Command

abbrev Files := String → Option String

/-- The JSON value of a file, in which the parts of a shape count. -/
def readJson (files : Files) (shape : Json.Shape) (role file : String) : Except CommandError Json :=
  match files file with
  | none => .error (.unreadable role file)
  | some text =>
    match Json.parseAs shape text with
    | none => .error (.malformed role file)
    | some j => .ok j

/-- Commands run the rules of a workspace, which may overflow. -/
def openSession (files : Files) (file : String) :
    Except CommandError (Session (Except Overflow)) :=
  match readJson files Workspace.shape "workspace" file with
  | .error e => .error e
  | .ok j =>
    match Workspace.ofJson? j with
    | none => .error (.malformed "workspace" file)
    | some w => w.session.mapError .workspace

def report {α : Type} (success : α → CommandReport) : Except SessionError α → CommandReport
  | .error e => .failure (.session e)
  | .ok a => success a

/-- The id of a rule that is given by its name or by its id. -/
def ruleId {m : Type → Type} (s : Snapshot m) (rule : String) : String :=
  ((s.registry.getByName? rule).map (·.id)).getD rule

/-- Do what a command says in an open session. -/
def performIn (files : Files) (s : Session (Except Overflow)) :
    Command → Except Overflow CommandReport
  | .run _ document =>
    match readJson files .whole "document" document with
    | .error e => .ok (.failure e)
    | .ok j => report (fun r => .success r.toJson) <$> s.runDocument (.ofJson j) []
  | .test _ filter =>
    report (fun outcomes =>
      let failed := outcomes.countP (!·.passed)
      { output := some (.array (outcomes.map TestOutcome.toJson))
        error := if failed = 0 then none else some (.testsFailed failed outcomes.length) }) <$>
      s.evaluateTests filter
  | .coverage _ => report (fun c => .success c.toJson) <$> s.coverage
  | .fields _ rule =>
    report (fun fs => .success (.array (fs.map FieldCoverage.toJson))) <$> s.fieldCoverage rule
  | .suggest _ limit =>
    report (fun ss => .success (.array (ss.map Suggestion.toJson))) <$>
      s.suggestTests (limit.getD s.config.limit)
  | .property _ rule trials seed =>
    match s.snapshot with
    | .error e => .ok (.failure (.session e))
    | .ok snapshot =>
      report (fun r =>
        { output := some r.toJson
          error := if r.failed = 0 then none else some (.propertyViolated r.failed r.trials) }) <$>
        s.checkProperties (ruleId snapshot rule) trials seed

def workspaceFile : Command → String
  | .run w _ | .test w _ | .coverage w | .fields w _ | .suggest w _ | .property w .. => w

/-- Open the session of the workspace and do what a command says. -/
def perform (files : Files) (c : Command) : Except Overflow CommandReport :=
  match openSession files c.workspaceFile with
  | .error e => .ok (.failure e)
  | .ok s => performIn files s c

def fileNames : Command → List String
  | .run workspace document => [workspace, document]
  | c => [c.workspaceFile]

end Command

end DocumentRules
