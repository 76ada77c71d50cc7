import Epidemic.Json.Token

/-!
# JSON documents

A document is a JSON text as a tree: numbers as they are written, members in the order in which
they are written, repeated keys included. Reading one asks for correct grammar and nothing else.

The tokens are read one after the other by an automaton that keeps the unfinished arrays and
objects on a stack, so the depth of a document is not limited.
-/

namespace Epidemic.Json

/-- The tree of a JSON text. -/
inductive Document where
  /-- No value. -/
  | null
  /-- A truth value. -/
  | bool (value : Bool)
  /-- A number as it is written. -/
  | number (literal : Decimal.Literal)
  /-- A string; none if it names unpaired surrogates. -/
  | string (content : Option String)
  /-- An array. -/
  | array (items : List Document)
  /-- An object; its keys are strings too. -/
  | object (members : List (Option String × Document))

namespace Document

/-- An array or object that is still open, with what it holds so far, last first. -/
inductive Frame where
  /-- An array that waits for an item. -/
  | array (before : List Document)
  /-- An object that waits for the value of a key. -/
  | object (before : List (Option String × Document)) (key : Option String)

/-- What the automaton waits for. The list holds the open frames, innermost first. -/
inductive State where
  /-- A value. -/
  | value (stack : List Frame)
  /-- The first item of an array, or its end. -/
  | firstItem (stack : List Frame)
  /-- The first key of an object, or its end. -/
  | firstKey (stack : List Frame)
  /-- A further key of an object. -/
  | nextKey (before : List (Option String × Document)) (stack : List Frame)
  /-- The colon after a key. -/
  | colon (before : List (Option String × Document)) (key : Option String) (stack : List Frame)
  /-- What follows a finished value. -/
  | after (value : Document) (stack : List Frame)

/-- The state after a token that begins a value. -/
def State.begin (token : Token) (stack : List Frame) : Option State :=
  match token with
  | .openArray => some (.firstItem stack)
  | .openObject => some (.firstKey stack)
  | .null => some (.after .null stack)
  | .bool truth => some (.after (.bool truth) stack)
  | .number literal => some (.after (.number literal) stack)
  | .string content => some (.after (.string content) stack)
  | _ => none

/-- The state after one more token; none if the token cannot follow. -/
def State.step (token : Token) : State → Option State
  | .value stack => State.begin token stack
  | .firstItem stack =>
    match token with
    | .closeArray => some (.after (.array []) stack)
    | token => State.begin token (.array [] :: stack)
  | .firstKey stack =>
    match token with
    | .closeObject => some (.after (.object []) stack)
    | .string key => some (.colon [] key stack)
    | _ => none
  | .nextKey before stack =>
    match token with
    | .string key => some (.colon before key stack)
    | _ => none
  | .colon before key stack =>
    match token with
    | .colon => some (.value (.object before key :: stack))
    | _ => none
  | .after _ [] => none
  | .after item (.array before :: stack) =>
    match token with
    | .comma => some (.value (.array (item :: before) :: stack))
    | .closeArray => some (.after (.array (item :: before).reverse) stack)
    | _ => none
  | .after item (.object before key :: stack) =>
    match token with
    | .comma => some (.nextKey ((key, item) :: before) stack)
    | .closeObject => some (.after (.object ((key, item) :: before).reverse) stack)
    | _ => none

/-- The state after a list of tokens. -/
def State.run : State → List Token → Option State
  | state, [] => some state
  | state, token :: rest => (state.step token).bind (·.run rest)

/-- The document of a list of tokens: one value, and nothing after it. -/
def ofTokens (tokens : List Token) : Option Document :=
  match State.run (.value []) tokens with
  | some (.after document []) => some document
  | _ => none

/-- The document of a text; none if the text is not JSON. -/
def ofText (text : List Char) : Option Document :=
  (Token.ofText text).bind ofTokens

end Document

end Epidemic.Json
