/-
Commands.

Every command works on a workspace file, which the environment may name where the arguments
do not.

* `Command.read` — the command that arguments and an environment stand for.
-/
import DocumentRules.Catalog.Basic
import DocumentRules.CommandLine.Arguments

namespace DocumentRules

inductive Command where
  | run (workspace document : String)
  | test (workspace : String) (filter : TestFilter)
  | coverage (workspace : String)
  | fields (workspace : String) (rule : Option String)
  | suggest (workspace : String) (limit : Option Nat)
  /-- Check a rule, by its name or its id. -/
  | property (workspace rule : String) (trials seed : Option Nat)
  deriving Inhabited

namespace Command

abbrev Environment := String → Option String

/-- A file name must not be empty. -/
def fileName (name : Option String) : Except UsageError String :=
  match name with
  | none => .error .invalid
  | some name => if name.isEmpty then .error .invalid else .ok name

/-- The workspace that the first argument names, or else the environment. -/
def workspaceName (env : Environment) (a : Arguments) : Except UsageError String :=
  fileName (a.positionals.head?.or (env "RULEKIT_WORKSPACE"))

/-- A number that an option gives, or else a variable of the environment. -/
def number (text : Option String) : Except UsageError (Option Nat) :=
  match text with
  | none => .ok none
  | some text =>
    match Arguments.readNatural? text with
    | some n => .ok (some n)
    | none => .error .invalid

/-- Read the arguments of a command that takes some options and positional arguments. -/
def arguments (options : List OptionKind) (kinds : List ArgumentKind) (args : List String) :
    Except UsageError Arguments :=
  Arguments.read (options ++ Arguments.commonOptions) kinds {} args

def readNamed (env : Environment) (name : String) (args : List String) :
    Except UsageError Command :=
  if name = "run" then do
    let a ← arguments [] [.file, .file] args
    return .run (← workspaceName env a) (← fileName a.positionals[1]?)
  else if name = "test" then do
    let a ← arguments [⟨"suite", none, some .text⟩, ⟨"tag", none, some .text⟩] [.file] args
    return .test (← workspaceName env a) ⟨a.value? "suite", a.value? "tag"⟩
  else if name = "coverage" then do
    let a ← arguments [⟨"fields", none, none⟩, ⟨"rule", none, some .text⟩] [.file] args
    let workspace ← workspaceName env a
    if a.has "fields" then return .fields workspace (a.value? "rule")
    else if a.has "rule" then .error .invalid
    else return .coverage workspace
  else if name = "suggest" then do
    let a ← arguments [⟨"limit", some 'l', some .natural⟩] [.file] args
    return .suggest (← workspaceName env a)
      (← number ((a.value? "limit").or (env "RULEKIT_SUGGEST_LIMIT")))
  else if name = "property" then do
    let a ← arguments [⟨"trials", none, some .natural⟩, ⟨"seed", none, some .natural⟩]
      [.file, .text] args
    match a.positionals with
    | [workspace, rule] =>
      return .property (← fileName (some workspace)) rule (← number (a.value? "trials"))
        (← number ((a.value? "seed").or (env "RULEKIT_SEED")))
    | _ => .error .invalid
  else .error .invalid

/-- The options in front of the name of a command. -/
def topOptions : List OptionKind := ⟨"version", some 'V', none⟩ :: Arguments.commonOptions

/-- The names of all commands, the one for help among them. -/
def names : List String := ["run", "test", "coverage", "suggest", "property", "help"]

/-- What the command `help` stands for: help on the whole or on one command. -/
def readHelp : List String → UsageError
  | [] => .help
  | [name] => if names.contains name then .help else .invalid
  | _ => .invalid

/-- Read the options up to the name of a command, and the command. -/
def readFrom (env : Environment) (a : Arguments) : List String → Except UsageError Command
  | [] => .error .invalid
  | arg :: args =>
    if arg = "--" then .error .invalid
    else if Arguments.isOptionLike arg then
      match Arguments.readOption topOptions a arg with
      | .error e => .error e
      | .ok (a, _) => readFrom env a args
    else if arg = "help" then .error (readHelp args)
    else readNamed env arg args

def read (env : Environment) (args : List String) : Except UsageError Command :=
  readFrom env {} args

end Command

end DocumentRules
