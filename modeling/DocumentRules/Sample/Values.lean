/-
Sample values of the kinds of fields.

* `FieldKind.representative` — one value for each kind;
* `FieldKind.random` — a random value of the kind.
-/
import DocumentRules.Calendar.Date
import DocumentRules.Document.Value
import DocumentRules.Random.Generator
import DocumentRules.Sample.FieldKind

namespace DocumentRules

def sampleIban : String := "IT60X0542811101000000123456"

namespace FieldKind

/-- The value that stands for a kind. -/
def representative : FieldKind → Document
  | .text => .string "sample"
  | .number => .int 100
  | .date => .string "2024-01-31"
  | .bool => .bool true
  | .iban => .string sampleIban

def times {α : Type} (draw : Draw α) : Nat → Draw (List α)
  | 0 => return []
  | n + 1 => do
    let a ← draw
    return a :: (← times draw n)

/-- A blank or a small letter; every fifth character is a blank. -/
def randomChar : Draw Char := do
  if ← Draw.chance .fifth then return ' '
  else return Char.ofNat (97 + (← Draw.below .byte 26))

/-- A text of one to eleven characters. -/
def randomText : Draw String := do
  let length ← Draw.fromRange .word 1 11
  return String.ofList (← times randomChar length.toNat)

/-- A whole number up to a thousand, or a number with two decimals. -/
def randomNumber : Draw Document := do
  if ← Draw.chance .half then return .int (Int64.ofInt (← Draw.fromRange .long (-1000) 1000))
  else
    let cents ← Draw.fromRange .long (-100000) 100000
    return .float ((Binary64.ofInt cents).div (.ofNat 100))

/-- A date of the years 1990 to 2030. -/
def randomDate : Draw String := do
  let year ← Draw.fromRange .word 1990 2030
  let month ← Draw.fromRange .word 1 12
  let day ← Draw.fromRange .word 1 28
  return String.ofList (Date.padded 4 year.toNat ++ '-' :: (Date.padded 2 month.toNat ++
    '-' :: Date.padded 2 day.toNat))

/-- The sample account number, or a made-up one that is hardly ever valid. -/
def randomIban : Draw String := do
  if ← Draw.chance .half then return sampleIban
  else
    let digits ← times (Draw.below .byte 10) 22
    return "IT" ++ String.ofList (digits.map fun d => Char.ofNat (48 + d))

def random : FieldKind → Draw Document
  | .text => return .string (← randomText)
  | .number => randomNumber
  | .date => return .string (← randomDate)
  | .bool => return .bool (← Draw.chance .half)
  | .iban => return .string (← randomIban)

end FieldKind

end DocumentRules
