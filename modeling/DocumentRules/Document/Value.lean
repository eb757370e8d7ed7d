/-
Document values.

A value is null, a truth value, a whole number of 64 bits, a floating-point number, a
text, a list or a map.  A *document* is a value whose maps, at every depth, hold
their entries in strictly ascending key order; so a document is determined by
what it holds.

* `Value.equal` — equality of values: the two zeros are equal, `nan` equals nothing;
* `Value.looselyEqual` — the same, except that a whole number may be spelled either way;
* `Value.display` — the value as text for people: texts stand in quotes without escapes, and
  numbers are written in the style `Numeral.plain`;
* `Value.WellFormed`, `Document` — the order of entries as an invariant.
-/
import DocumentRules.Number.Numeral
import DocumentRules.Order.Entries

namespace DocumentRules

inductive Value where
  | null
  | bool (b : Bool)
  | int (i : Int64)
  | float (x : Binary64)
  | string (s : String)
  | list (items : List Value)
  | map (entries : List (String × Value))
  deriving Inhabited

namespace Value

def kindName : Value → String
  | .null => "Null"
  | .bool _ => "Bool"
  | .int _ => "Int"
  | .float _ => "Float"
  | .string _ => "String"
  | .list _ => "List"
  | .map _ => "Map"

def isNull : Value → Bool
  | .null => true
  | _ => false

theorem isNull_eq_false_iff {v : Value} : v.isNull = false ↔ v ≠ .null := by
  cases v <;> simp [isNull]

def isContainer : Value → Bool
  | .list _ | .map _ => true
  | _ => false

def isNumber : Value → Bool
  | .int _ | .float _ => true
  | _ => false

def bool? : Value → Option Bool
  | .bool b => some b
  | _ => none

def int? : Value → Option Int64
  | .int i => some i
  | _ => none

/-- Any number, as the nearest floating-point number. -/
def number? : Value → Option Binary64
  | .int i => some (.ofInt i.toInt)
  | .float x => some x
  | _ => none

/-- A number as a value: a whole number of magnitude below `2 ^ 63` is an `int`. -/
def ofNumber (x : Binary64) : Value :=
  if x.isWhole && x.abs.lt (.ofNat (Nat.pow 2 63)) then .int x.toInt64 else .float x

def string? : Value → Option String
  | .string s => some s
  | _ => none

def items? : Value → Option (List Value)
  | .list items => some items
  | _ => none

def entries? : Value → Option (List (String × Value))
  | .map entries => some entries
  | _ => none

/-! ### Equality -/

mutual

/-- The two values are the same; floating-point numbers are compared numerically. -/
def equal : Value → Value → Bool
  | .null, .null => true
  | .bool a, .bool b => a == b
  | .int a, .int b => a == b
  | .float a, .float b => a.eq b
  | .string a, .string b => a == b
  | .list as, .list bs => equalItems as bs
  | .map as, .map bs => equalEntries as bs
  | _, _ => false

def equalItems : List Value → List Value → Bool
  | [], [] => true
  | a :: as, b :: bs => equal a b && equalItems as bs
  | _, _ => false

def equalEntries : List (String × Value) → List (String × Value) → Bool
  | [], [] => true
  | (k, a) :: as, (l, b) :: bs => k == l && equal a b && equalEntries as bs
  | _, _ => false

end

mutual

/-- The two values are the same, where a whole number may be an `int` on one side and a
`float` on the other. -/
def looselyEqual : Value → Value → Bool
  | .null, .null => true
  | .bool a, .bool b => a == b
  | .int a, .int b => a == b
  | .float a, .float b => a.eq b
  | .int a, .float b => (Binary64.ofInt a.toInt).eq b
  | .float a, .int b => (Binary64.ofInt b.toInt).eq a
  | .string a, .string b => a == b
  | .list as, .list bs => looselyEqualItems as bs
  | .map as, .map bs => looselyEqualEntries as bs
  | _, _ => false

def looselyEqualItems : List Value → List Value → Bool
  | [], [] => true
  | a :: as, b :: bs => looselyEqual a b && looselyEqualItems as bs
  | _, _ => false

def looselyEqualEntries : List (String × Value) → List (String × Value) → Bool
  | [], [] => true
  | (k, a) :: as, (l, b) :: bs => k == l && looselyEqual a b && looselyEqualEntries as bs
  | _, _ => false

end

/-! ### Text for people -/

mutual

def display : Value → String
  | .null => "null"
  | .bool b => if b then "true" else "false"
  | .int i => toString i.toInt
  | .float x => Numeral.write Numeral.plain x
  | .string s => "\"" ++ s ++ "\""
  | .list items => "[" ++ displayItems items ++ "]"
  | .map entries => "\x7b" ++ displayEntries entries ++ "\x7d"

def displayItems : List Value → String
  | [] => ""
  | [v] => display v
  | v :: vs => display v ++ ", " ++ displayItems vs

def displayEntries : List (String × Value) → String
  | [] => ""
  | [(k, v)] => "\"" ++ k ++ "\": " ++ display v
  | (k, v) :: es => "\"" ++ k ++ "\": " ++ display v ++ ", " ++ displayEntries es

end

/-! ### Well-formed values -/

mutual

/-- The entries of every map ascend strictly by key. -/
def WellFormed : Value → Prop
  | .list items => ItemsWellFormed items
  | .map entries => Entries.Ascending entries ∧ EntriesWellFormed entries
  | _ => True

def ItemsWellFormed : List Value → Prop
  | [] => True
  | v :: vs => WellFormed v ∧ ItemsWellFormed vs

def EntriesWellFormed : List (String × Value) → Prop
  | [] => True
  | (_, v) :: es => WellFormed v ∧ EntriesWellFormed es

end

theorem itemsWellFormed_iff {items : List Value} :
    ItemsWellFormed items ↔ ∀ v ∈ items, WellFormed v := by
  induction items with
  | nil => simp [ItemsWellFormed]
  | cons v vs ih => simp [ItemsWellFormed, ih]

theorem entriesWellFormed_iff {entries : List (String × Value)} :
    EntriesWellFormed entries ↔ ∀ e ∈ entries, WellFormed e.2 := by
  induction entries with
  | nil => simp [EntriesWellFormed]
  | cons e es ih =>
    obtain ⟨k, v⟩ := e
    simp [EntriesWellFormed, ih]

@[simp] theorem wellFormed_null : WellFormed .null := trivial

theorem wellFormed_list {items : List Value} :
    WellFormed (.list items) ↔ ∀ v ∈ items, WellFormed v := itemsWellFormed_iff

theorem wellFormed_map {entries : List (String × Value)} :
    WellFormed (.map entries) ↔ Entries.Ascending entries ∧ ∀ e ∈ entries, WellFormed e.2 := by
  rw [← entriesWellFormed_iff]
  rfl

end Value

/-- A value whose maps are in key order. -/
structure Document where
  value : Value
  wellFormed : value.WellFormed

namespace Document

def null : Document := ⟨.null, trivial⟩

def emptyMap : Document := ⟨.map [], Value.wellFormed_map.mpr ⟨List.Pairwise.nil, by simp⟩⟩

instance : Inhabited Document := ⟨null⟩

def bool (b : Bool) : Document := ⟨.bool b, trivial⟩

def int (i : Int64) : Document := ⟨.int i, trivial⟩

def float (x : Binary64) : Document := ⟨.float x, trivial⟩

def string (s : String) : Document := ⟨.string s, trivial⟩

theorem ext {d e : Document} (h : d.value = e.value) : d = e := by
  cases d
  cases e
  cases h
  rfl

end Document

end DocumentRules
