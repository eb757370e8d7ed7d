/-
Dates of the civil calendar.

A date has a year, which may be negative, a month and a day that exists in it.
`Date.readIn?` reads a text in a given layout and `Date.text` writes the
standard form: year, month and day with hyphens, where years outside 0 to 9999 carry a
sign.

In a layout, a year is up to four digits, or any number of digits behind a sign; a
month and a day are one or two digits.  White space may precede each number.
-/
import DocumentRules.Number.Numeral
import DocumentRules.Text.Classes

namespace DocumentRules

namespace Date

def isLeap (year : Int) : Bool := year % 4 == 0 && (year % 100 != 0 || year % 400 == 0)

/-- The number of days of a month, counted from one; no days if there is no such month. -/
def daysIn (year : Int) : (month : Nat) → Nat
  | 2 => if isLeap year then 29 else 28
  | 4 | 6 | 9 | 11 => 30
  | 1 | 3 | 5 | 7 | 8 | 10 | 12 => 31
  | _ => 0

/-- The first and the last year of the calendar. -/
def minYear : Int := -262143
def maxYear : Int := 262142

/-- There is such a day. -/
def Exists (year : Int) (month day : Nat) : Prop :=
  minYear ≤ year ∧ year ≤ maxYear ∧ 1 ≤ day ∧ day ≤ daysIn year month

instance (y : Int) (m d : Nat) : Decidable (Exists y m d) := inferInstanceAs (Decidable (_ ∧ _))

end Date

structure Date where
  year : Int
  month : Nat
  day : Nat
  exists_day : Date.Exists year month day
  deriving DecidableEq

namespace Date

/-- The date with these parts, if there is one. -/
def of? (year : Int) (month day : Nat) : Option Date :=
  if h : Exists year month day then some ⟨year, month, day, h⟩ else none

def first : Date := ⟨minYear, 1, 1, by decide⟩

def last : Date := ⟨maxYear, 12, 31, by decide⟩

/-! ### Writing -/

/-- Digits with zeros in front, up to a width. -/
def padded (width n : Nat) : List Char :=
  let ds := Nat.toDigits 10 n
  List.replicate (width - ds.length) '0' ++ ds

/-- A year: four digits, or a sign and at least four digits. -/
def yearChars (year : Int) : List Char :=
  if 0 ≤ year ∧ year ≤ 9999 then padded 4 year.toNat
  else (if year < 0 then '-' else '+') :: padded 4 year.natAbs

/-- The standard form, year first. -/
def chars (d : Date) : List Char :=
  yearChars d.year ++ '-' :: (padded 2 d.month ++ '-' :: padded 2 d.day)

def text (d : Date) : String := String.ofList d.chars

/-! ### Reading -/

/-- A piece of a layout. -/
inductive Piece where
  | year
  | month
  | day
  | literal (c : Char)

/-- The numbers read so far. -/
structure Parts where
  year : Int := 0
  month : Nat := 0
  day : Nat := 0

/-- A number of at most `width` digits, or of any number of them without a width, and what
stands behind it. -/
def readNumber? (width : Option Nat) (text : List Char) : Option (Nat × List Char) :=
  let run := text.takeWhile Char.isDigit
  let ds := match width with
    | some w => run.take w
    | none => run
  if ds.isEmpty then none else some (Numeral.natValue ds, text.drop ds.length)

/-- A year, perhaps with a sign. -/
def readYear? : List Char → Option (Int × List Char)
  | '-' :: rest => (readNumber? none rest).map fun (n, rest) => (-(n : Int), rest)
  | '+' :: rest => (readNumber? none rest).map fun (n, rest) => ((n : Int), rest)
  | text => (readNumber? (some 4) text).map fun (n, rest) => ((n : Int), rest)

def readPiece? (p : Parts) (text : List Char) : Piece → Option (Parts × List Char)
  | .year => (readYear? (Text.trimStart text)).map fun (n, rest) => ({ p with year := n }, rest)
  | .month =>
    (readNumber? (some 2) (Text.trimStart text)).map fun (n, rest) => ({ p with month := n }, rest)
  | .day =>
    (readNumber? (some 2) (Text.trimStart text)).map fun (n, rest) => ({ p with day := n }, rest)
  | .literal c =>
    match text with
    | c' :: rest => if c = c' then some (p, rest) else none
    | [] => none

/-- Read the pieces one after another; nothing may be left over. -/
def readPieces? (p : Parts) (text : List Char) : List Piece → Option Parts
  | [] => if text.isEmpty then some p else none
  | piece :: pieces => (readPiece? p text piece).bind fun (p, rest) => readPieces? p rest pieces

def readIn? (layout : List Piece) (text : List Char) : Option Date :=
  (readPieces? {} text layout).bind fun p => of? p.year p.month p.day

end Date

end DocumentRules
