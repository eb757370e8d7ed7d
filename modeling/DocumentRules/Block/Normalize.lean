/-
Normalizing numbers and dates.

* `normalizeNumber` — reads number text with thousands separators and foreign signs;
* `normalizeDate` — reads the date layouts of `dateLayouts` and writes the standard form.

`Failure` is how these, and whatever else the body of a rule does, may fail.  A body that fails
leaves the document as it was; the run goes on with the next rule.
-/
import DocumentRules.Calendar.Date
import DocumentRules.Document.Value

namespace DocumentRules

structure Failure where
  message : String
  deriving DecidableEq

/-- A condition of the rule did not hold. -/
def Failure.assertion (message : String) : Failure := ⟨"Assertion failed: " ++ message⟩

namespace Normalize

/-- The characters that number text may hold; all others are passed over. -/
def isNumberChar (c : Char) : Bool := c.isDigit || c == '.' || c == ',' || c == '-'

/-- Number text with a point for its decimal mark: of the comma and the point the one that
occurs last is the mark, and the other one separates thousands and is dropped. -/
def plainNumber (text : List Char) : List Char :=
  let kept := text.filter isNumberChar
  -- The mark that occurs last.
  match kept.reverse.find? fun c => c == '.' || c == ',' with
  | none => kept
  | some mark =>
    (kept.filter fun c => c == mark || !(c == '.' || c == ',')).map fun c =>
      if c == mark then '.' else c

/-- A number, or number text read as one. -/
def normalizeNumber : Value → Except Failure Value
  | .int i => .ok (.int i)
  | .float x => .ok (.float x)
  | .string s =>
    match Numeral.read? (plainNumber s.toList) with
    | some x => .ok (.ofNumber x)
    | none => .error ⟨"'" ++ s ++ "' is not a number"⟩
  | v => .error ⟨"cannot normalize " ++ v.kindName ++ " as number"⟩

/-- The layouts of dates, in the order in which they are tried. -/
def dateLayouts : List (List Date.Piece) :=
  [[.year, .literal '-', .month, .literal '-', .day],
   [.day, .literal '/', .month, .literal '/', .year],
   [.day, .literal '.', .month, .literal '.', .year],
   [.day, .literal '-', .month, .literal '-', .year],
   [.year, .literal '/', .month, .literal '/', .day]]

/-- The date that a text denotes in the first layout that fits. -/
def readDate? (text : List Char) : Option Date := dateLayouts.findSome? (Date.readIn? · text)

/-- Date text in the standard form. -/
def normalizeDate : Value → Except Failure Value
  | .string s =>
    let trimmed := Text.trimChars s.toList
    match readDate? trimmed with
    | some d => .ok (.string d.text)
    | none => .error ⟨"'" ++ String.ofList trimmed ++ "' is not a date"⟩
  | v => .error ⟨"cannot normalize " ++ v.kindName ++ " as date"⟩

end Normalize

/-- What a value is normalized to. -/
inductive NormalKind where
  | number
  | date
  deriving DecidableEq

def NormalKind.apply : NormalKind → Value → Except Failure Value
  | .number => Normalize.normalizeNumber
  | .date => Normalize.normalizeDate

theorem NormalKind.wellFormed_apply {k : NormalKind} {v w : Value} (h : k.apply v = .ok w) :
    w.WellFormed := by
  cases k
  · cases v <;> simp only [NormalKind.apply, Normalize.normalizeNumber] at h
    · cases h
    · cases h
    · cases h; trivial
    · cases h; trivial
    · split at h
      · cases h
        unfold Value.ofNumber
        split <;> trivial
      · cases h
    · cases h
    · cases h
  · cases v <;> simp only [NormalKind.apply, Normalize.normalizeDate] at h
    all_goals try cases h
    split at h
    · cases h; trivial
    · cases h

end DocumentRules
