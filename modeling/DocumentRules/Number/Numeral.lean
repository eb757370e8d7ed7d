/-
How floating-point numbers are written and read.

Writing splits into two steps: `Decimal.shortest` selects the digits, and a `Numeral.Style`
lays them out.  Two styles are in use: **`Numeral.json`** for JSON text and
**`Numeral.plain`** for messages and document display.

Reading (`Numeral.read?`) accepts an optional sign and then `inf`, `infinity` or `nan` in
any letter case, or digits with at most one point and an optional exponent; the
value is the nearest number.
-/
import DocumentRules.Number.Shortest

namespace DocumentRules

namespace Numeral

/-- The decisions of a written form. -/
structure Style where
  /-- The exponents of the leading digit that are written without an exponent: from the
  first up to, not including, the second. Without bounds, all of them. -/
  positional : Option (Int × Int)
  /-- Whole numbers end in `.0`. -/
  pointZero : Bool
  tie : Decimal.Tie
  nan : String
  infinity : String
  negativeInfinity : String

/-- JSON text: positional from `1e-5` up to `1e16`, with at least one digit after the
point; JSON has no word for the numbers that are not finite. -/
def json : Style where
  positional := some (-5, 16)
  pointZero := true
  tie := .toEven
  nan := "null"
  infinity := "null"
  negativeInfinity := "null"

/-- Text for people: never an exponent, and whole numbers without a point. -/
def plain : Style where
  positional := none
  pointZero := false
  tie := .upward
  nan := "NaN"
  infinity := "inf"
  negativeInfinity := "-inf"

def digits (n : Nat) : List Char := Nat.toDigits 10 n

/-- The digits with the point after the first `count` of them. -/
def placePoint (pointZero : Bool) (ds : List Char) (count : Int) : List Char :=
  if count ≤ 0 then
    ['0', '.'] ++ List.replicate (-count).toNat '0' ++ ds
  else if ds.length ≤ count.toNat then
    ds ++ List.replicate (count.toNat - ds.length) '0' ++ (if pointZero then ['.', '0'] else [])
  else
    ds.take count.toNat ++ ['.'] ++ ds.drop count.toNat

/-- `d.ddde+X`: the point after the first digit, and a signed exponent. -/
def scientific (ds : List Char) (exponent : Int) : List Char :=
  let fraction := ds.drop 1
  ds.take 1 ++ (if fraction.isEmpty then [] else '.' :: fraction) ++ ['e'] ++
    (if exponent < 0 then ['-'] else ['+']) ++ digits exponent.natAbs

/-- The digits of a selected decimal, laid out. -/
def layOut (style : Style) (d : Decimal) : List Char :=
  let ds := digits d.digits
  let leading : Int := ds.length + d.exponent - 1
  match style.positional with
  | none => placePoint style.pointZero ds (leading + 1)
  | some (low, high) =>
    if low ≤ leading ∧ leading < high then placePoint style.pointZero ds (leading + 1)
    else scientific ds leading

def write (style : Style) : Binary64 → String
  | .nan => style.nan
  | .infinity s => if s then style.negativeInfinity else style.infinity
  | .finite s m q _ =>
    let magnitude :=
      if m = 0 then placePoint style.pointZero ['0'] 1
      else layOut style (Decimal.shortest style.tie m q)
    String.ofList (if s then '-' :: magnitude else magnitude)

/-! ### Reading -/

def digitValue (c : Char) : Nat := c.toNat - '0'.toNat

/-- The number that a list of digits denotes. -/
def natValue (ds : List Char) : Nat := ds.foldl (fun n c => 10 * n + digitValue c) 0

/-- The number nearest to `± digits * 10 ^ exponent`. Magnitudes far outside the range are
settled by their count of digits alone. -/
def nearest (negative : Bool) (d : Decimal) : Binary64 :=
  if d.digits = 0 then .zero negative
  else
    let order : Int := Decimal.digitCount d.digits + d.exponent
    if 310 < order then .infinity negative
    else if order < -330 then .zero negative
    else .ofQuotient negative d.quotient.1 d.quotient.2

/-- A signed run of digits. -/
def readExponent? : List Char → Option Int
  | '+' :: ds => if ds.isEmpty || !ds.all Char.isDigit then none else some (natValue ds)
  | '-' :: ds => if ds.isEmpty || !ds.all Char.isDigit then none else some (-(natValue ds : Int))
  | ds => if ds.isEmpty || !ds.all Char.isDigit then none else some (natValue ds)

/-- Digits with at most one point among or beside them, then perhaps an exponent. -/
def readMagnitude? (text : List Char) : Option Decimal :=
  let whole := text.takeWhile Char.isDigit
  let rest := text.dropWhile Char.isDigit
  let (fraction, rest) := match rest with
    | '.' :: r => (r.takeWhile Char.isDigit, r.dropWhile Char.isDigit)
    | r => ([], r)
  if whole.isEmpty && fraction.isEmpty then none
  else
    let mantissa := natValue (whole ++ fraction)
    match rest with
    | [] => some ⟨mantissa, -(fraction.length : Int)⟩
    | e :: r =>
      if e = 'e' ∨ e = 'E' then
        (readExponent? r).map fun x => ⟨mantissa, x - fraction.length⟩
      else none

/-- A magnitude, or one of the words for numbers that are not finite. -/
def readUnsigned? (negative : Bool) (text : List Char) : Option Binary64 :=
  let word := text.map Char.toLower
  if word = "inf".toList ∨ word = "infinity".toList then some (.infinity negative)
  else if word = "nan".toList then some .nan
  else (readMagnitude? text).map (nearest negative)

/-- Read a number; nothing may stand before or after it. -/
def read? : List Char → Option Binary64
  | '-' :: r => readUnsigned? true r
  | '+' :: r => readUnsigned? false r
  | r => readUnsigned? false r

end Numeral

end DocumentRules
