/-
Reading the arguments of a command.

An argument that starts with a hyphen is an option, in its long form or as a cluster of
letters; the value of an option follows an equals sign or is the next argument, which must not
look like an option.  Everything behind a double hyphen, and every other argument, is
positional.  No option may be given twice.  Arguments are looked at in their order: a wrong one
in front of the option for help is an error, and what stands behind that option does not matter.

* `Arguments.read` — sorts the arguments of a command;
* `Arguments.readNatural?` — the numbers that options take.
-/
import DocumentRules.Number.Numeral

namespace DocumentRules

/-- Why the arguments do not make a command. -/
inductive UsageError where
  /-- The user asked for help or for the version. -/
  | help
  /-- The arguments are wrong. -/
  | invalid
  deriving DecidableEq

/-- A natural number of 64 bits, perhaps with a plus sign. -/
def Arguments.readNatural? (text : String) : Option Nat :=
  let digits := match text.toList with
    | '+' :: ds => ds
    | ds => ds
  if digits.isEmpty || !digits.all Char.isDigit then none
  else
    let n := Numeral.natValue digits
    if n < UInt64.size then some n else none

/-- What an argument stands for. -/
inductive ArgumentKind where
  | text
  | natural
  /-- The name of a file, which is not empty. -/
  | file

def ArgumentKind.admits : ArgumentKind → String → Bool
  | .text, _ => true
  | .natural, s => (Arguments.readNatural? s).isSome
  | .file, s => !s.isEmpty

/-- An option that a command knows, with the kind of its value, if it takes one. -/
structure OptionKind where
  name : String
  letter : Option Char
  value : Option ArgumentKind

structure Arguments where
  positionals : List String := []
  /-- The options that were given, by name, with their values. -/
  options : List (String × Option String) := []

namespace Arguments

def commonOptions : List OptionKind := [⟨"verbose", some 'v', none⟩, ⟨"help", some 'h', none⟩]

/-- The options that end the reading. -/
def isHelp (name : String) : Bool := name == "help" || name == "version"

def noteFlag (a : Arguments) (o : OptionKind) : Except UsageError Arguments :=
  if isHelp o.name then .error .help
  else if a.options.any (·.1 == o.name) then .error .invalid
  else .ok { a with options := a.options ++ [(o.name, none)] }

def noteValue (a : Arguments) (o : OptionKind) (kind : ArgumentKind) (value : String) :
    Except UsageError Arguments :=
  if a.options.any (·.1 == o.name) || !kind.admits value then .error .invalid
  else .ok { a with options := a.options ++ [(o.name, some value)] }

/-- Note a positional argument of a command that takes arguments of these kinds. -/
def notePositional (kinds : List ArgumentKind) (a : Arguments) (arg : String) :
    Except UsageError Arguments :=
  match kinds[a.positionals.length]? with
  | none => .error .invalid
  | some kind =>
    if kind.admits arg then .ok { a with positionals := a.positionals ++ [arg] }
    else .error .invalid

def has (a : Arguments) (name : String) : Bool := a.options.any (·.1 == name)

def value? (a : Arguments) (name : String) : Option String :=
  (a.options.find? (·.1 == name)).bind (·.2)

/-- The argument looks like an option. -/
def isOptionLike (arg : String) : Bool := arg.startsWith "-" && arg != "-"

/-- An option that waits for its value, and the kind of the value. -/
abbrev Waiting := Option (OptionKind × ArgumentKind)

/-- Read a cluster of letters. An option that still needs its value comes last. -/
def readCluster (known : List OptionKind) (a : Arguments) :
    List Char → Except UsageError (Arguments × Waiting)
  | [] => .ok (a, none)
  | c :: cs =>
    match known.find? (·.letter == some c) with
    | none => .error .invalid
    | some o =>
      match o.value, cs with
      | some kind, [] => .ok (a, some (o, kind))
      | some kind, '=' :: value => (a.noteValue o kind (String.ofList value)).map (·, none)
      | some kind, value => (a.noteValue o kind (String.ofList value)).map (·, none)
      | none, _ =>
        match a.noteFlag o with
        | .error e => .error e
        | .ok a => readCluster known a cs

/-- Read a long option, without its hyphens. An option may still need its value. -/
def readLong (known : List OptionKind) (a : Arguments) (text : List Char) :
    Except UsageError (Arguments × Waiting) :=
  let name := String.ofList (text.takeWhile (· != '='))
  match known.find? (·.name == name) with
  | none => .error .invalid
  | some o =>
    match o.value, text.dropWhile (· != '=') with
    | some kind, [] => .ok (a, some (o, kind))
    | some kind, _ :: value => (a.noteValue o kind (String.ofList value)).map (·, none)
    | none, [] => (a.noteFlag o).map (·, none)
    | none, _ :: _ => .error .invalid

def readOption (known : List OptionKind) (a : Arguments) (arg : String) :
    Except UsageError (Arguments × Waiting) :=
  match arg.toList with
  | '-' :: '-' :: text => readLong known a text
  | _ :: letters => readCluster known a letters
  | [] => .error .invalid

/-- Sort the arguments of a command that takes positional ones of these kinds. -/
def read (known : List OptionKind) (kinds : List ArgumentKind) (a : Arguments) :
    List String → Except UsageError Arguments
  | [] => .ok a
  | arg :: args =>
    if arg = "--" then
      -- Nothing behind it is an option.
      args.foldlM (notePositional kinds) a
    else if isOptionLike arg then
      match readOption known a arg with
      | .error e => .error e
      | .ok (a, none) => read known kinds a args
      | .ok (a, some (o, kind)) =>
        match args with
        | [] => .error .invalid
        | value :: args =>
          if isOptionLike value then .error .invalid
          else
            match a.noteValue o kind value with
            | .error e => .error e
            | .ok a => read known kinds a args
    else
      match notePositional kinds a arg with
      | .error e => .error e
      | .ok a => read known kinds a args

end Arguments

end DocumentRules
