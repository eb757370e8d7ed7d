/-
The rules that every registry may have.

`Iban.isValid` is the check of international account numbers: 15 to 34 digits and capital
letters whose value, with the first four characters moved to the end and every letter
written as a number from 10 to 35, leaves the remainder one when divided by 97.

* `Iban.run` — takes the letters and digits of `fields.ibanRaw`, in capital letters, checks
  them and writes them to `fields.iban`;
* `Total.run` — writes `fields.total` as the sum of `fields.net` and `fields.tax`, if both are
  numbers and there is no total yet (or a null); amounts are rounded to hundredths, a half
  going away from zero, and whole amounts are written as `int`s;
* `Draft.addBuiltIns` — registers the two.
-/
import DocumentRules.Registry.Draft
import DocumentRules.Text.Classes

namespace DocumentRules

/-! ### Account numbers -/

namespace Iban

/-- The value of a digit or a capital letter. -/
def charValue? (c : Char) : Option UInt32 :=
  if '0' ≤ c ∧ c ≤ '9' then some (c.val - '0'.val)
  else if 'A' ≤ c ∧ c ≤ 'Z' then some (c.val - 'A'.val + 10)
  else none

/-- The remainder of the number with these digits appended, one or two for each character,
in words of 32 bits. -/
def remainder (r : UInt32) : List Char → Option UInt32
  | [] => some r
  | c :: cs =>
    match charValue? c with
    | none => none
    | some v => remainder ((if 10 ≤ v then r * 100 + v else r * 10 + v) % 97) cs

/-- The text is a well-formed account number. -/
def isValid (iban : List Char) : Bool :=
  15 ≤ iban.length && iban.length ≤ 34 && iban.all (·.toNat < 0x80) &&
    remainder 0 (iban.drop 4 ++ iban.take 4) == some 1

/-- The letters and digits of a text in capital letters. -/
def normalize (raw : String) : String :=
  Text.upper (String.ofList (raw.toList.filter Text.isAlphanumeric))

def rawField : Path := [.key "fields", .key "ibanRaw"]

def field : Path := [.key "fields", .key "iban"]

/-- Write the normalized account number, if there is one. -/
def run (d : Document) : Except Failure Document :=
  match (d.value.get? rawField).bind Value.string? with
  | none => .ok d
  | some raw =>
    let iban := normalize raw
    if isValid iban.toList then .ok (d.set field ⟨.string iban, trivial⟩)
    else .error (.assertion "Invalid IBAN")

def ruleName : String := "Builtins.Iban.NormalizeAndValidate"

def spec {m : Type → Type} [Pure m] : Rule.Spec m where
  id := ruleName
  name := ruleName
  body := { kind := .builtIn, source := "builtin:iban", invoke := fun d => pure (run d) }
  reads := [Path.text rawField]
  writes := [Path.text field]
  description := some "Normalize IBAN from field ibanRaw and validate checksum"
  builtIn := true

end Iban

/-! ### Totals of invoices -/

namespace Total

def money (amount : Binary64) : Value :=
  let hundred := Binary64.ofNat 100
  let rounded := (amount.mul hundred).roundHalfAway.div hundred
  if rounded.isWhole then .int rounded.toInt64 else .float rounded

theorem wellFormed_money (amount : Binary64) : (money amount).WellFormed := by
  unfold money
  dsimp only
  split <;> trivial

def netField : Path := [.key "fields", .key "net"]

def taxField : Path := [.key "fields", .key "tax"]

def totalField : Path := [.key "fields", .key "total"]

/-- Write the total, if it is missing and can be computed. -/
def run (d : Document) : Document :=
  if (d.value.get? totalField).any (!·.isNull) then d
  else
    match (d.value.get? netField).bind Value.number?,
      (d.value.get? taxField).bind Value.number? with
    | some net, some tax => d.set totalField ⟨money (net.add tax), wellFormed_money _⟩
    | _, _ => d

def ruleName : String := "Builtins.Total.FromNetTax"

def spec {m : Type → Type} [Pure m] : Rule.Spec m where
  id := ruleName
  name := ruleName
  body := { kind := .builtIn, source := "builtin:total", invoke := fun d => pure (.ok (run d)) }
  reads := [Path.text netField, Path.text taxField, Path.text totalField]
  writes := [Path.text totalField]
  description := some "Compute total = net + tax if missing"
  builtIn := true

end Total

/-! ### Registration -/

variable {m : Type → Type} [Pure m]

/-- Register the built-in rules one after another, up to the first that is refused.  A rule of
the draft may stand in the way of one and not of the other, so the draft that a refusal leaves
can hold a built-in rule more. -/
def Draft.addBuiltIns (d : Draft m) : Draft m × Except RegistryError Unit :=
  d.addSpecs [Iban.spec, Total.spec]

/-- The bodies of the built-in rules by name. -/
def builtInBody? (name : String) : Option (Body m) :=
  if name = Iban.ruleName then some Iban.spec.body
  else if name = Total.ruleName then some Total.spec.body
  else none

end DocumentRules
