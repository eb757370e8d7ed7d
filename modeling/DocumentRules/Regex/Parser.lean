/-
Reading regular expressions.

Alternatives are sequences of parts: groups, classes, repetitions, escapes and single
characters.  What the dialect does not have is refused: looking around, references back,
classes of Unicode properties, and operations on or nesting of character classes.

* `parse` — the tree of a regular expression and the number of its groups, or the reason why the
  text is none.
-/
import DocumentRules.Regex.Bracket
import DocumentRules.Regex.Repetition
import DocumentRules.Text.Classes

namespace DocumentRules.Regex

namespace Reader

/-- A character that the name of a group may hold, or begin with. -/
def isNameChar (first : Bool) (c : Char) : Bool :=
  if first then c == '_' || Text.isAlphabetic c
  else c == '_' || c == '.' || c == '[' || c == ']' || Text.isAlphanumeric c

/-- The name of a group up to its closing bracket. No two groups have the same name. -/
def readGroupName : Reading String := do
  let r ← get
  let name := r.rest.takeWhile (· != '>')
  let behind := r.rest.dropWhile (· != '>')
  if r.rest.isEmpty then refuse "expected capture group name, but got end of pattern"
  if !(name.take 1).all (isNameChar true) || !(name.drop 1).all (isNameChar false) then
    refuse "invalid group name"
  if behind.isEmpty then refuse "expected end of capture group name, but got end of pattern"
  if name.isEmpty then refuse "empty capture group names are not allowed"
  if r.names.contains name then refuse "duplicate capture group name"
  set { r with rest := behind.drop 1, names := name :: r.names }
  return String.ofList name

def setFlag? (c : Char) (on : Bool) (f : Flags) : Option Flags :=
  if c = 'i' then some { f with ignoreCase := on }
  else if c = 'm' then some { f with multiLine := on }
  else if c = 's' then some { f with dotMatchesAll := on }
  else if c = 'U' then some { f with swapGreed := on }
  else if c = 'R' then some { f with lineBreaks := on }
  else if c = 'x' then some { f with ignoreBlanks := on }
  else if c = 'u' then some f
  else none

/-- The flags up to a colon or a closing bracket, each at most once, with at most one
minus sign, which must not be the last sign. The flags and the text behind them. -/
def flagsUntil (seen : List Char) (on : Bool) (f : Flags) :
    List Char → Except String (Flags × List Char)
  | [] => .error "expected ':' or ')' to end inline flags, but got end of pattern"
  | c :: cs =>
    if c = ':' ∨ c = ')' then
      if seen.head? = some '-' then
        .error "inline flags cannot end with negation directive"
      else .ok (f, c :: cs)
    else if c = '-' then
      if on then flagsUntil ('-' :: seen) false f cs
      else .error "inline flag negation cannot be repeated"
    else
      match setFlag? c on f with
      | none => .error "unrecognized inline flag"
      | some g =>
        if seen.contains c then .error "duplicate inline flag is not allowed"
        else flagsUntil (c :: seen) on g cs

/-- Read flags and put them into force; the reader then stands at a colon, or behind one flag at
least at a closing bracket. -/
def readFlags : Reading Unit := do
  let r ← get
  if r.rest.isEmpty then refuse "expected closing ')', but got end of pattern"
  let (f, rest) ← flagsUntil [] true r.flags r.rest
  if rest.head? == some ')' && rest.length == r.rest.length then
    refuse "empty flag directive '(?)' is not allowed"
  set { r with flags := f, rest := rest }

def newGroup : Reading Nat :=
  modifyGet fun r => (r.nextGroup, { r with nextGroup := r.nextGroup + 1 })

def dot : Reading Pattern := do
  let f := (← get).flags
  return .set (if f.dotMatchesAll then .all
    else if f.lineBreaks then .notLineBreak else .notLineFeed)

def lineStart : Reading Pattern := do
  let f := (← get).flags
  return .look (if f.multiLine then if f.lineBreaks then .breakStart else .lineStart else .start)

def lineFinish : Reading Pattern := do
  let f := (← get).flags
  return .look (if f.multiLine then if f.lineBreaks then .breakFinish else .lineFinish else .finish)

/-- A single part that is neither a group, a class nor a repetition; the reader stands at its
first character. -/
def readPrimitive (c : Char) : Reading Pattern := do
  if c = '\\' then return ← readEscape
  let _ ← advance
  if c = '.' then dot
  else if c = '^' then lineStart
  else if c = '$' then lineFinish
  else charPattern c

/-- The pattern of complete alternatives and the parts of a last one (both last first). -/
def joined (alternatives parts : List Pattern) : Pattern :=
  .ofChoice (.ofSequence parts.reverse :: alternatives).reverse

def tooNested : String := "pattern has too much nesting"

mutual

/-- Read alternatives up to the end of the text or of the group. -/
def readChoice : (fuel : Nat) → Reading Pattern
  | 0 => refuse tooNested
  | fuel + 1 => do
    if nestLimit < (← get).depth then refuse tooNested
    modify fun r => { r with depth := r.depth + 1 }
    let p ← readParts fuel [] []
    modify fun r => { r with depth := r.depth - 1 }
    return p

/-- Read further parts, after complete alternatives and parts of the current one (both last
first). -/
def readParts : (fuel : Nat) → List Pattern → List Pattern → Reading Pattern
  | 0, _, _ => refuse tooNested
  | fuel + 1, alternatives, parts => do
    skip
    match ← current? with
    | none => return joined alternatives parts
    | some c =>
      if c = '(' then
        let flags := (← get).flags
        let group ← readGroup fuel
        if group.isSome then modify fun r => { r with flags := flags }
        if !(← take? [')']) then refuse "found open group without closing ')'"
        readParts fuel alternatives (group.toList ++ parts)
      else if c = ')' then
        if (← get).depth = 1 then refuse "found closing ')' without matching '('"
        return joined alternatives parts
      else if c = '|' then
        let _ ← advance
        readParts fuel (.ofSequence parts.reverse :: alternatives) []
      else if c = '[' then readParts fuel alternatives ((← readClass) :: parts)
      else if c = '?' || c = '*' || c = '+' then readParts fuel alternatives (← readSign parts)
      else if c = '{' then readParts fuel alternatives (← readCount parts)
      else readParts fuel alternatives ((← readPrimitive c) :: parts)

/-- Read a group up to its closing bracket; none if it only sets flags. -/
def readGroup : (fuel : Nat) → Reading (Option Pattern)
  | 0 => refuse tooNested
  | fuel + 1 => do
    let _ ← advance
    skip
    let r ← get
    if ["?=", "?!", "?<=", "?<!"].any (·.toList.isPrefixOf r.rest) then
      refuse "look-around is not supported"
    let long ← take? "?P<".toList
    let short ← if long then pure false else take? "?<".toList
    if long || short then
      let index ← newGroup
      let name ← readGroupName
      return some (.group index (some name) (← readChoice fuel))
    else if ← take? ['?'] then
      readFlags
      if (← current?) = some ')' then return none
      let _ ← advance
      return some (← readChoice fuel)
    else
      let index ← newGroup
      return some (.group index none (← readChoice fuel))

end

end Reader

/-- Read a regular expression: its tree and the number of its groups, the whole match
included. -/
def parse (text : String) : Except String (Pattern × Nat) := do
  let chars := text.toList
  let (p, r) ← (Reader.readChoice (3 * chars.length + 3)).run { rest := chars }
  -- Repetitions of repetitions are deep trees without being nested in the text.
  if p.nestingWithin nestLimit then return (p, r.nextGroup) else throw Reader.tooNested

end DocumentRules.Regex
