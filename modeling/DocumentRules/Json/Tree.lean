/-
Syntax trees of JSON text.

A tree says how the values of a text are nested and leaves numbers and strings as they are
spelled.  Every text that follows the grammar has a tree, however deep and whatever its
numbers and strings stand for.

The tokens are read by a machine with a stack of open arrays and objects.
-/
import DocumentRules.Json.Token

namespace DocumentRules.Json

inductive Tree where
  | word (j : Json)
  | number (chars : List Char)
  | string (pieces : List Piece)
  | array (items : List Tree)
  | object (entries : List (List Piece × Tree))

namespace Tree

/-- An open container, with what it holds so far (last first). -/
inductive Frame where
  | array (items : List Tree)
  | object (entries : List (List Piece × Tree)) (name : List Piece)

/-- What the machine expects next. -/
inductive Expect where
  | value
  /-- A value, or the end of the array that was just opened. -/
  | valueOrClose
  | name (entries : List (List Piece × Tree))
  /-- A name, or the end of the object that was just opened. -/
  | nameOrClose
  | colon (entries : List (List Piece × Tree)) (name : List Piece)
  /-- A comma or the end of the container. -/
  | separator (last : Tree)
  /-- Nothing: the text is complete. -/
  | done (t : Tree)

/-- The machine after a complete value. -/
def afterValue (stack : List Frame) (t : Tree) : List Frame × Expect :=
  match stack with
  | [] => ([], .done t)
  | _ => (stack, .separator t)

/-- Read a token where a value may start. -/
def readValue (stack : List Frame) : Token → Option (List Frame × Expect)
  | .word j => some (afterValue stack (.word j))
  | .number chars => some (afterValue stack (.number chars))
  | .string pieces => some (afterValue stack (.string pieces))
  | .openArray => some (.array [] :: stack, .valueOrClose)
  | .openObject => some (.object [] [] :: stack, .nameOrClose)
  | _ => none

def readToken : List Frame × Expect → Token → Option (List Frame × Expect)
  | (stack, .value), t => readValue stack t
  | (.array [] :: stack, .valueOrClose), .closeArray => some (afterValue stack (.array []))
  | (stack, .valueOrClose), t => readValue stack t
  | (stack, .name entries), .string name => some (stack, .colon entries name)
  | (.object [] _ :: stack, .nameOrClose), .closeObject => some (afterValue stack (.object []))
  | (_ :: stack, .nameOrClose), .string name => some (stack, .colon [] name)
  | (stack, .colon entries name), .colon => some (.object entries name :: stack, .value)
  | (.array items :: stack, .separator t), .comma => some (.array (t :: items) :: stack, .value)
  | (.array items :: stack, .separator t), .closeArray =>
    some (afterValue stack (.array (t :: items).reverse))
  | (.object entries name :: stack, .separator t), .comma =>
    some (stack, .name ((name, t) :: entries))
  | (.object entries name :: stack, .separator t), .closeObject =>
    some (afterValue stack (.object ((name, t) :: entries).reverse))
  | _, _ => none

def ofTokens? (tokens : List Token) : Option Tree :=
  match tokens.foldlM readToken ([], .value) with
  | some (_, .done t) => some t
  | _ => none

def parse? (text : String) : Option Tree := (lex text.toList).bind ofTokens?

end Tree

end DocumentRules.Json
