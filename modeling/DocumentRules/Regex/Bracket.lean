/-
Character classes in brackets.

A class lists characters, ranges, escapes and named classes, perhaps negated.  A bracket at
the front and hyphens at either end stand for themselves; nesting and the operations `&&`,
`--` and `~~` are refused.
-/
import DocumentRules.Regex.Escape

namespace DocumentRules.Regex.Reader

/-- A named class between `[:` and `:]`, if there is one here; else the reader stays. -/
def readNamedClass? : Reading (Option CharSet) := modifyGet fun r =>
  let stay := (none, r)
  match r.rest with
  | '[' :: ':' :: rest =>
    let (negated, rest) := match rest with
      | '^' :: rest => (true, rest)
      | rest => (false, rest)
    let name := rest.takeWhile (· != ':')
    match rest.dropWhile (· != ':') with
    | ':' :: ']' :: behind =>
      match CharSet.named? (String.ofList name) with
      | some s => (some (if negated then s.complement else s), { r with rest := behind })
      | none => stay
    | _ => stay
  | _ => stay

def unclosedClass : String := "found unclosed character class"

/-- A character or an escape inside a class. -/
def readClassItem : Reading Pattern := do
  let c ← current unclosedClass
  if c = '\\' then readEscape
  else
    let _ ← advance
    return .char c

def itemSet : Pattern → Reading CharSet
  | .char c => return [(c.toNat, c.toNat)]
  | .set s => return s
  | _ => refuse "invalid escape sequence in character class"

def itemChar : Pattern → Reading Char
  | .char c => return c
  | _ => refuse "character class ranges must start and end with a single character"

def unclosedAfterHyphen : String := "non-empty character class has no closing bracket after dash"

/-- An item or a range of characters. -/
def readClassRange : Reading CharSet := do
  let first ← readClassItem
  skip
  let c ← current "non-empty character class has no closing bracket"
  let behind ← aheadVisible?
  -- A hyphen at the end of the class, or before another one, makes no range.
  if c != '-' || behind == some ']' || behind == some '-' then return ← itemSet first
  let _ ← next unclosedAfterHyphen
  let last ← readClassItem
  let low ← itemChar first
  let high ← itemChar last
  if high < low then refuse "invalid range in character class"
  return [(low.toNat, high.toNat)]

/-- Hyphens at the front of a class stand for themselves. -/
def leadingHyphens : (fuel : Nat) → Reading CharSet
  | 0 => return []
  | fuel + 1 => do
    if (← current?) = some '-' then
      let _ ← next unclosedAfterHyphen
      return ('-'.toNat, '-'.toNat) :: (← leadingHyphens fuel)
    else return []

/-- What an operation on classes is called. -/
def operation? (c : Char) : Option String :=
  if c = '&' then some "intersection"
  else if c = '-' then some "difference"
  else if c = '~' then some "symmetric difference"
  else none

/-- The rest of a class up to its closing bracket. -/
def classRest : (fuel : Nat) → Reading CharSet
  | 0 => refuse unclosedClass
  | fuel + 1 => do
    skip
    let c ← current unclosedClass
    if c = '[' then
      match ← readNamedClass? with
      | some named => return named ++ (← classRest fuel)
      | none => refuse "nested character classes are not supported"
    else if c = ']' then
      let _ ← advance
      return []
    else
      if (← ahead?) == some c then
        if let some operation := operation? c then
          refuse ("character class " ++ operation ++ " is not supported")
      let range ← readClassRange
      return range ++ (← classRest fuel)

/-- A class; the reader stands at the opening bracket. -/
def readClass : Reading Pattern := do
  let negated := (← next unclosedClass) == '^'
  if negated then
    let _ ← next "negated character class has no closing bracket"
  let fuel := (← get).rest.length + 1
  let hyphens ← leadingHyphens fuel
  let mut start := hyphens
  if hyphens.isEmpty && (← current?) == some ']' then
    let _ ← next "character class begins with literal ']' but has no closing bracket"
    start := [(']'.toNat, ']'.toNat)]
  let s := CharSet.canonical (start ++ (← classRest fuel))
  let s := if (← get).flags.ignoreCase then s.foldCase else s
  return .set (if negated then s.complement else s)

end DocumentRules.Regex.Reader
