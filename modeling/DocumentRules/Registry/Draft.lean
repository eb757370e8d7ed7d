/-
Drafts of registries.

A draft collects rules in the order in which they are registered.  Every operation checks
that ids and names stay unique and that no two enabled rules write to overlapping paths.
An operation that fails leaves the draft as it was; only `addSpecs`, which is a row of
registrations, keeps what it registered before the one that failed.
-/
import DocumentRules.Rule.Basic

namespace DocumentRules

inductive RegistryError where
  | duplicateId (id : String)
  | duplicateName (name : String)
  | malformedPath (e : MalformedPath)
  /-- Two enabled rules write to overlapping paths; the path is the one of the second rule. -/
  | writeConflict (first second : String) (path : Path)
  | unknownRule (id : String)
  | builtInImmutable (id : String)
  | invalidBlock (e : InvalidPattern)
  deriving DecidableEq

def RegistryError.message : RegistryError → String
  | .duplicateId id => "Duplicate rule id: " ++ id
  | .duplicateName name => "Duplicate rule name: " ++ name
  | .malformedPath e => e.message
  | .writeConflict first second path =>
    "Rules " ++ first ++ " and " ++ second ++ " both declare writes to " ++ Path.text path
  | .unknownRule id => "Unknown rule: " ++ id
  | .builtInImmutable id => "Builtin rule " ++ id ++ " cannot be replaced"
  | .invalidBlock e => "Invalid block in rule: " ++ e.pattern ++ ": " ++ e.reason

/-- The rules of a registry that is being put together. -/
structure Draft (m : Type → Type) where
  rules : List (Rule m)

namespace Draft

variable {m : Type → Type}

def empty : Draft m := ⟨[]⟩

def get? (d : Draft m) (id : String) : Option (Rule m) := d.rules.find? (·.id == id)

def others (d : Draft m) (id : String) : List (Rule m) := d.rules.filter (·.id != id)

/-- The first conflict of an enabled rule with another enabled rule. -/
def conflictWith? (r : Rule m) (others : List (Rule m)) : Option RegistryError :=
  if r.enabled then
    (others.filter (·.enabled)).findSome? fun other =>
      (r.conflict? other).map fun ab => .writeConflict other.id r.id ab.1
  else none

/-- Register a rule under a new id and a new name. -/
def add (d : Draft m) (r : Rule m) : Except RegistryError (Draft m) :=
  if d.rules.any (·.id == r.id) then .error (.duplicateId r.id)
  else if d.rules.any (·.name == r.name) then .error (.duplicateName r.name)
  else match conflictWith? r d.rules with
    | some e => .error e
    | none => .ok ⟨d.rules ++ [r]⟩

/-- Put a rule in the place of the one with its id, which must not be built in. -/
def replace (d : Draft m) (r : Rule m) : Except RegistryError (Draft m) :=
  match d.get? r.id with
  | none => .error (.unknownRule r.id)
  | some old =>
    if old.builtIn then .error (.builtInImmutable r.id)
    else if (d.others r.id).any (·.name == r.name) then .error (.duplicateName r.name)
    else match conflictWith? r (d.others r.id) with
      | some e => .error e
      | none => .ok ⟨d.rules.map fun s => if s.id == r.id then r else s⟩

/-- Replace the rule with this id, or register the rule if there is none. -/
def upsert (d : Draft m) (r : Rule m) : Except RegistryError (Draft m) :=
  if d.rules.any (·.id == r.id) then d.replace r else d.add r

def setEnabled (d : Draft m) (id : String) (on : Bool) : Except RegistryError (Draft m) :=
  let switched : Draft m :=
    ⟨d.rules.map fun s => if s.id == id then { s with enabled := on } else s⟩
  match d.get? id with
  | none => .error (.unknownRule id)
  | some r =>
    if on && !r.enabled then
      match conflictWith? { r with enabled := true } (d.others id) with
      | some e => .error e
      | none => .ok switched
    else .ok switched

def addAll (d : Draft m) : List (Rule m) → Except RegistryError (Draft m)
  | [] => .ok d
  | r :: rs =>
    match d.add r with
    | .error e => .error e
    | .ok d => addAll d rs

def addSpec (d : Draft m) (s : Rule.Spec m) : Except RegistryError (Draft m) :=
  match Rule.ofSpec s with
  | .error e => .error (.malformedPath e)
  | .ok r => d.add r

/-- Register the rules that authors describe one after another, up to the first that is
refused: the draft afterwards, which keeps the rules before that one, and how it ended. -/
def addSpecs (d : Draft m) : List (Rule.Spec m) → Draft m × Except RegistryError Unit
  | [] => (d, .ok ())
  | s :: ss =>
    match d.addSpec s with
    | .error e => (d, .error e)
    | .ok d => addSpecs d ss

end Draft

end DocumentRules
