import Epidemic.Decimal.Layout
import Epidemic.Json.Value

/-!
# Writing JSON

A value is written without blanks, or over several lines with an indentation of two spaces per
level. Members are written in the order in which they are listed. In strings only quotes, the
escape sign and control characters are escaped.
-/

namespace Epidemic.Json

/-- Doubles are written without an exponent if their first digit stands at most five places after
the point or sixteen before it; an integral one then keeps `.0`, and of two equally short decimals
the even one is taken. What is no finite number has no JSON text and is written as null. -/
def floatLayout : Decimal.Layout where
  tie := .toEven
  positional := some (-5, 15)
  keepsFraction := true
  infinityText := "null".toList
  signsInfinity := false
  nanText := "null".toList

/-- The lower-case hexadecimal digit of a number below sixteen. -/
def hexDigit (n : Nat) : Char := if n < 10 then Char.ofNat (48 + n) else Char.ofNat (87 + n)

/-- A character as it is written in a string. -/
def escapeChar (c : Char) : List Char :=
  if c = '"' then ['\\', '"']
  else if c = '\\' then ['\\', '\\']
  else if ' ' ≤ c then [c]
  else if c = '\x08' then ['\\', 'b']
  else if c = '\x0c' then ['\\', 'f']
  else if c = '\n' then ['\\', 'n']
  else if c = '\r' then ['\\', 'r']
  else if c = '\t' then ['\\', 't']
  else ['\\', 'u', '0', '0', hexDigit (c.toNat / 16), hexDigit (c.toNat % 16)]

/-- A string in quotes. -/
def quoted (text : String) : List Char :=
  '"' :: (text.toList.flatMap escapeChar ++ ['"'])

namespace Value

mutual

/-- The text of a value without blanks. -/
def compactChars : Value → List Char
  | .null => ['n', 'u', 'l', 'l']
  | .bool true => ['t', 'r', 'u', 'e']
  | .bool false => ['f', 'a', 'l', 's', 'e']
  | .int value => Decimal.intText value
  | .float value => floatLayout.write value
  | .string value => quoted value
  | .array items => '[' :: compactItems items
  | .object members => '\x7b' :: compactMembers members

/-- The items of an array, and its end. -/
def compactItems : List Value → List Char
  | [] => [']']
  | [item] => compactChars item ++ [']']
  | item :: rest => compactChars item ++ ',' :: compactItems rest

/-- The members of an object, and its end. -/
def compactMembers : List (String × Value) → List Char
  | [] => ['\x7d']
  | [(name, value)] => quoted name ++ ':' :: (compactChars value ++ ['\x7d'])
  | (name, value) :: rest => quoted name ++ ':' :: (compactChars value ++ ',' :: compactMembers rest)

end

/-- The text of a value without blanks. -/
def compact (value : Value) : String := String.ofList (compactChars value)

/-- The beginning of a line at a level. -/
def newLine (level : Nat) : List Char := '\n' :: List.replicate (2 * level) ' '

mutual

/-- The text of a value over several lines, the value standing at a level. -/
def prettyChars (level : Nat) : Value → List Char
  | .array [] => ['[', ']']
  | .array items => '[' :: (prettyItems (level + 1) items ++ newLine level ++ [']'])
  | .object [] => ['\x7b', '\x7d']
  | .object members => '\x7b' :: (prettyMembers (level + 1) members ++ newLine level ++ ['\x7d'])
  | .null => compactChars .null
  | .bool value => compactChars (.bool value)
  | .int value => compactChars (.int value)
  | .float value => compactChars (.float value)
  | .string value => compactChars (.string value)

/-- The items of an array, each on a line of its own. -/
def prettyItems (level : Nat) : List Value → List Char
  | [] => []
  | [item] => newLine level ++ prettyChars level item
  | item :: rest => newLine level ++ prettyChars level item ++ ',' :: prettyItems level rest

/-- The members of an object, each on a line of its own. -/
def prettyMembers (level : Nat) : List (String × Value) → List Char
  | [] => []
  | [(name, value)] => newLine level ++ quoted name ++ ':' :: ' ' :: prettyChars level value
  | (name, value) :: rest =>
    newLine level ++ quoted name ++ ':' :: ' ' :: prettyChars level value ++
      ',' :: prettyMembers level rest

end

/-- The text of a value over several lines. -/
def pretty (value : Value) : String := String.ofList (prettyChars 0 value)

end Value

end Epidemic.Json
