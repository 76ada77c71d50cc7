import Epidemic.Json.Document

/-!
# JSON values

The value that a document stands for. Integers that fit 64 bits, with or without a sign, are
integers; all other numbers are doubles, and an integer is never equal to a double. The members of
an object are listed in ascending order of their keys, and of a repeated key the last one counts.

A document has no value when it is nested too deeply, when a number in it is too large for a
double, or when a string in it names unpaired surrogates.
-/

namespace Epidemic.Json

/-- Why a text is refused. -/
inductive Fault where
  /-- It is not JSON, or it stands for no value. -/
  | malformed
  /-- It stands for a value of the wrong shape. -/
  | mismatch
  deriving DecidableEq

/-- A JSON value. -/
inductive Value where
  /-- No value. -/
  | null
  /-- A truth value. -/
  | bool (value : Bool)
  /-- An integer. -/
  | int (value : Int)
  /-- A number that is not kept as an integer. -/
  | float (value : Binary64)
  /-- A string. -/
  | string (value : String)
  /-- An array. -/
  | array (items : List Value)
  /-- An object. -/
  | object (members : List (String × Value))

/-- Named values, in ascending order of the names. -/
abbrev Members := List (String × Value)

namespace Members

/-- The value of a name. -/
def get? (name : String) : Members → Option Value
  | [] => none
  | (key, value) :: rest => if key = name then some value else get? name rest

/-- Gives a name a value, in place of the one it had. -/
def insert (name : String) (value : Value) : Members → Members
  | [] => [(name, value)]
  | (key, old) :: rest =>
    if name < key then (name, value) :: (key, old) :: rest
    else if key < name then (key, old) :: insert name value rest
    else (name, value) :: rest

/-- Gives every name of a list its value, the last one if it is repeated. -/
def merge (members : Members) (updates : List (String × Value)) : Members :=
  updates.foldl (fun merged update => insert update.1 update.2 merged) members

end Members

namespace Value

/-- How many arrays and objects may stand in each other. -/
def maxDepth : Nat := 127

/-- The value of a number. Negative zero is no integer. -/
def ofLiteral (literal : Decimal.Literal) : Except Fault Value :=
  let size := literal.natAbs
  if literal.isInteger && !literal.negative && size < Width.words64 then .ok (.int size)
  else if literal.isInteger && literal.negative && 0 < size && 2 * size ≤ Width.words64 then
    .ok (.int (-size))
  else match literal.scaled with
    | some x => .ok (.float x)
    | none => .error .malformed

/-- The text of a string. -/
def ofContent (content : Option String) : Except Fault String :=
  match content with
  | some text => .ok text
  | none => .error .malformed

mutual

/-- The value of a document in which at most `room` arrays and objects stand in each other. -/
def ofDocument (room : Nat) : Document → Except Fault Value
  | .null => .ok .null
  | .bool value => .ok (.bool value)
  | .number literal => ofLiteral literal
  | .string content => do return .string (← ofContent content)
  | .array items =>
    match room with
    | 0 => .error .malformed
    | room + 1 => do return .array (← ofItems room items)
  | .object members =>
    match room with
    | 0 => .error .malformed
    | room + 1 => do return .object (Members.merge [] (← ofMembers room members))

/-- The values of the items of an array. -/
def ofItems (room : Nat) : List Document → Except Fault (List Value)
  | [] => .ok []
  | item :: rest => do
    let value ← ofDocument room item
    return value :: (← ofItems room rest)

/-- The named values of an object in the order in which they are written. -/
def ofMembers (room : Nat) : List (Option String × Document) → Except Fault (List (String × Value))
  | [] => .ok []
  | (key, item) :: rest => do
    let name ← ofContent key
    let value ← ofDocument room item
    return (name, value) :: (← ofMembers room rest)

end

mutual

/-- Equality of values: doubles are equal as numbers, and objects are equal when they give the same
names equal values. -/
def equals : Value → Value → Bool
  | .null, .null => true
  | .bool a, .bool b => a == b
  | .int a, .int b => a == b
  | .float a, .float b => a.equals b
  | .string a, .string b => a == b
  | .array a, .array b => itemsEqual a b
  | .object a, .object b => membersEqual a b
  | _, _ => false

/-- Equality of two lists, item by item. -/
def itemsEqual : List Value → List Value → Bool
  | [], [] => true
  | a :: rest, b :: rest' => equals a b && itemsEqual rest rest'
  | _, _ => false

/-- Equality of two lists of named values in ascending order of the names. -/
def membersEqual : List (String × Value) → List (String × Value) → Bool
  | [], [] => true
  | (name, a) :: rest, (name', b) :: rest' => name == name' && equals a b && membersEqual rest rest'
  | _, _ => false

end

end Value

end Epidemic.Json
