/-
Repetition of the part before it: `?`, `*`, `+` and counts in braces, each greedy or lazy.
-/
import DocumentRules.Regex.Pattern
import DocumentRules.Regex.Reader

namespace DocumentRules.Regex.Reader

/-- White space, in force or not. -/
def skipWhitespace : Reading Unit :=
  modify fun r => { r with rest := r.rest.dropWhile Text.isBlank }

/-- The digits at the front, with what may be skipped between them. -/
def decimalDigits : (fuel : Nat) → List Char → Reading (List Char)
  | 0, ds => return ds
  | fuel + 1, ds => do
    match ← current? with
    | some c =>
      if c.isDigit then
        let _ ← advanceAndSkip
        decimalDigits fuel (ds ++ [c])
      else return ds
    | none => return ds

/-- A number below `2 ^ 32`, with white space around it. -/
def readDecimal : Reading Nat := do
  skipWhitespace
  let ds ← decimalDigits (← get).rest.length []
  skipWhitespace
  if ds.isEmpty then refuse "expected decimal number, but found no digits"
  let n := ds.foldl (fun n c => 10 * n + (c.toNat - '0'.toNat)) 0
  if UInt32.size ≤ n then refuse "got invalid decimal number"
  return n

/-- Repeat the last part read so far (last first). -/
def repeatLast (low : Nat) (high : Option Nat) (lazy : Bool) (parts : List Pattern) :
    Reading (List Pattern) := do
  match parts with
  | [] => refuse "uncounted repetition operator must be applied to a sub-expression"
  | p :: ps => return .ofRepetition low high (lazy == (← get).flags.swapGreed) p :: ps

/-- One of the signs `?`, `*` and `+` after a part. -/
def readSign (parts : List Pattern) : Reading (List Pattern) := do
  let c ← current?
  let more ← advance
  let lazy := more && (← current?) == some '?'
  if lazy then let _ ← advance
  match c with
  | some '?' => repeatLast 0 (some 1) lazy parts
  | some '*' => repeatLast 0 none lazy parts
  | _ => repeatLast 1 none lazy parts

/-- A count in braces after a part; the reader stands at the opening brace. -/
def readCount (parts : List Pattern) : Reading (List Pattern) := do
  if parts.isEmpty then
    refuse "counted repetition operator must be applied to a sub-expression"
  let _ ← next "found unclosed counted repetition operator"
  let low ← readDecimal
  let mut high := some low
  if (← current "found incomplete and unclosed counted repetition operator") = ',' then
    let c ← next "found counted repetition operator with a comma that is unclosed"
    if c = '}' then high := none
    else high := some (← readDecimal)
  if (← current "found counted repetition with min and max that is unclosed") != '}' then
    refuse "expected closing brace for counted repetition, but got something else"
  let more ← advanceAndSkip
  let lazy := more && (← current?) == some '?'
  if lazy then let _ ← advance
  if high.any (· < low) then
    refuse "found counted repetition with a min bigger than its max"
  repeatLast low high lazy parts

end DocumentRules.Regex.Reader
