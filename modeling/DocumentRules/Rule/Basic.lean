/-
Rules and what they declare.

A rule declares the paths that its body may read and write.  The declarations relate
rules to each other:

* `Rule.conflict?` — two rules write to overlapping paths;
* `Rule.feeds` — a rule writes something that another one reads.
-/
import DocumentRules.Digest.Sha256
import DocumentRules.Rule.Body

namespace DocumentRules

structure Rule (m : Type → Type) where
  id : String
  /-- Unique within a registry. -/
  name : String
  version : String
  /-- The rule may be switched off but not replaced. -/
  builtIn : Bool
  /-- Only enabled rules run. -/
  enabled : Bool
  body : Body m
  reads : OrderedSet Path
  writes : OrderedSet Path
  description : Option String
  /-- Seconds since the beginning of 1970, where the author gave a time. -/
  updatedAt : Option Int
  codeHash : String

/-- The digest of a source text, in capital hexadecimal digits. -/
def codeHash (source : String) : String := (Sha256.hex source).map Char.toUpper

/-- The version of a rule that names none. -/
def defaultVersion : String := "1.0.0"

namespace Rule

variable {m : Type → Type}

/-- Some declared write covers the path. -/
def declaresWrite (r : Rule m) (p : Path) : Bool := r.writes.toList.any (Path.covers · p)

def declaresRead (r : Rule m) (p : Path) : Bool := r.reads.toList.any (Path.overlaps · p)

/-- The first pair of overlapping writes of two rules. -/
def conflict? (r s : Rule m) : Option (Path × Path) :=
  (r.writes.toList.flatMap fun a => s.writes.toList.map fun b => (a, b)).find? fun ab =>
    Path.overlaps ab.1 ab.2

/-- The rule writes something that the reader reads. -/
def feeds (r reader : Rule m) : Bool :=
  r.writes.toList.any fun w => reader.reads.toList.any fun p => Path.overlaps w p

/-- The first path of a list of texts that is none, or the set of all of them. -/
def parsePaths : List String → Except MalformedPath (OrderedSet Path)
  | [] => .ok ∅
  | t :: ts =>
    match Path.parse t with
    | .error e => .error e
    | .ok p => (parsePaths ts).map (·.insert p)

/-- What an author says about a rule. -/
structure Spec (m : Type → Type) where
  id : String
  name : String
  body : Body m
  /-- Written paths; without any, those that the body implies. -/
  reads : List String := []
  writes : List String := []
  version : String := defaultVersion
  builtIn : Bool := false
  enabled : Bool := true
  description : Option String := none
  updatedAt : Option Int := none

/-- The declared paths, or the inferred ones if none are declared. -/
def declared (texts : List String) (inferred : OrderedSet Path) :
    Except MalformedPath (OrderedSet Path) :=
  if texts.isEmpty then .ok inferred else parsePaths texts

def ofSpec (s : Spec m) : Except MalformedPath (Rule m) :=
  match declared s.reads s.body.inferredReads with
  | .error e => .error e
  | .ok reads =>
    match declared s.writes s.body.inferredWrites with
    | .error e => .error e
    | .ok writes =>
      .ok {
        id := s.id
        name := s.name
        version := s.version
        builtIn := s.builtIn
        enabled := s.enabled
        body := s.body
        reads := reads
        writes := writes
        description := s.description
        updatedAt := s.updatedAt
        codeHash := DocumentRules.codeHash s.body.source }

end Rule

end DocumentRules
