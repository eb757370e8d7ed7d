/-
Reading records from JSON.

A record is an object with known field names, none of them twice; unknown entries are
ignored.  It may also be written as an array of the field values in their declared
order.  A field is *required*, *optional* (missing or null is none) or *defaulted*
(missing is the default; null must be readable).

A reader is a function `Json → Option α`; none means that the value is not of the form.
-/
import DocumentRules.Json.Basic

namespace DocumentRules

namespace Json

def string? : Json → Option String
  | .string s => some s
  | _ => none

/-- A word of a fixed choice; it may also be written as the only name of an object, before a
null. -/
def word? : Json → Option String
  | .string s => some s
  | .object [(s, .null)] => some s
  | _ => none

def bool? : Json → Option Bool
  | .bool b => some b
  | _ => none

/-- An integer token with a value from `low` to `high`. -/
def integerIn? (low high : Int) : Json → Option Int
  | .integer i => if low ≤ i ∧ i ≤ high then some i else none
  | _ => none

/-- An unsigned integer of 64 bits. -/
def natural? (j : Json) : Option Nat := (integerIn? 0 (UInt64.size - 1) j).map Int.toNat

def array? : Json → Option (List Json)
  | .array items => some items
  | _ => none

/-- An array, all of whose members can be read. -/
def list? {α : Type} (read : Json → Option α) (j : Json) : Option (List α) :=
  j.array?.bind (·.mapM read)

end Json

structure Record where
  fields : List (String × Json)
  /-- The record was written as an array, so a missing field is missing at the end. -/
  positional : Bool

namespace Record

/-- No name occurs twice. -/
def allDistinct : List String → Bool
  | [] => true
  | n :: ns => !ns.contains n && allDistinct ns

/-- Read a record with these field names. -/
def ofJson? (names : List String) : Json → Option Record
  | .object entries =>
    let known := entries.filter fun e => names.contains e.1
    if allDistinct (known.map (·.1)) then some ⟨known, false⟩ else none
  | .array items => if items.length ≤ names.length then some ⟨names.zip items, true⟩ else none
  | _ => none

def get? (r : Record) (name : String) : Option Json := (r.fields.find? (·.1 == name)).map (·.2)

variable {α : Type}

/-- A field that must be there. -/
def required (r : Record) (name : String) (read : Json → Option α) : Option α :=
  (r.get? name).bind read

/-- A field that may be missing or null. -/
def optional (r : Record) (name : String) (read : Json → Option α) : Option (Option α) :=
  match r.get? name with
  | none => some none
  | some .null => some none
  | some j => (read j).map some

/-- A field that may be missing or null, but not missing at the end of an array. -/
def nullable (r : Record) (name : String) (read : Json → Option α) : Option (Option α) :=
  if r.positional && (r.get? name).isNone then none else r.optional name read

/-- A field with a default. -/
def defaulted (r : Record) (name : String) (read : Json → Option α) (default : α) : Option α :=
  match r.get? name with
  | none => some default
  | some j => read j

end Record

end DocumentRules
