/-
Blocks: declarative transformations of a document.

Each block reads at most one field and, on a given document, fails, does nothing or
makes one assignment (`Block.effect`).  A block on a field that is missing does nothing, an
assertion apart.

* `Block.reads`, `Block.writes` — the fields that a block may read and assign.
-/
import DocumentRules.Block.Normalize
import DocumentRules.Document.Access
import DocumentRules.Document.PathText
import DocumentRules.Regex.Machine
import DocumentRules.Text.LetterCase

namespace DocumentRules

inductive Block where
  | set (field : Path) (value : Document)
  | copy (field target : Path)
  | upper (field : Path)
  | lower (field : Path)
  | trim (field : Path)
  | normalize (field : Path) (kind : NormalKind)
  /-- Write what a group of a regular expression matches in a field. -/
  | extract (field : Path) (pattern : String) (target : Path) (group : Nat)
  | assert (field : Path) (message : Option String)

namespace Block

def reads : Block → List Path
  | .set .. => []
  | .copy field _ | .upper field | .lower field | .trim field | .normalize field _
  | .extract field .. | .assert field _ => [field]

/-- The fields that the block may assign. -/
def writes : Block → List Path
  | .set field _ | .upper field | .lower field | .trim field | .normalize field _ => [field]
  | .copy _ target | .extract _ _ target _ => [target]
  | .assert .. => []

structure Assignment where
  field : Path
  value : Document

def assignText (field : Path) (s : String) : Assignment := ⟨field, ⟨.string s, trivial⟩⟩

/-- Change a text where it stands. -/
def mapText (d : Document) (field : Path) (f : String → String) : Option Assignment :=
  ((d.value.get? field).bind Value.string?).map fun s => assignText field (f s)

/-- What the block does to a document: a failure, nothing, or one assignment. The regular
expression is the compiled pattern of an `extract` block. -/
def effect (regex : Option Regex) (d : Document) : Block → Except Failure (Option Assignment)
  | .set field value => .ok (some ⟨field, value⟩)
  | .copy field target => .ok ((d.get? field).map fun v => ⟨target, v⟩)
  | .upper field => .ok (mapText d field Text.upper)
  | .lower field => .ok (mapText d field Text.lower)
  | .trim field => .ok (mapText d field Text.trim)
  | .normalize field kind =>
    match d.value.get? field with
    | none => .ok none
    | some v =>
      match h : kind.apply v with
      | .ok w => .ok (some ⟨field, ⟨w, NormalKind.wellFormed_apply h⟩⟩)
      | .error e => .error e
  | .extract field _ target group =>
    .ok do
      let s ← (d.value.get? field).bind Value.string?
      let r ← regex
      let captured ← r.capture? s group
      return assignText target captured
  | .assert field message =>
    if d.has field then .ok none
    else .error (.assertion (message.getD ("missing field " ++ Path.text field)))

end Block

def Document.assign (d : Document) (a : Block.Assignment) : Document := d.set a.field a.value

end DocumentRules
