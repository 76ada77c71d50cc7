import Epidemic.Decimal.Literal

/-!
# Arguments of the command line

An argument list is read from the left: a flag with a value takes the argument after it, whatever
that looks like, and every other argument stands for itself. A flag in last place has no value and
is not recognised.

Values are numbers in plain digits, or decimals in the usual notation.
-/

namespace Epidemic.Command

/-- The flags that take a value. -/
inductive Flag where
  /-- A file with a configuration. -/
  | config
  /-- The number of nodes. -/
  | nodes
  /-- How many peers a message is pushed to. -/
  | fanout
  /-- The latency in milliseconds. -/
  | latency
  /-- The jitter in milliseconds. -/
  | jitter
  /-- The loss rate. -/
  | dropRate
  /-- The seed. -/
  | seed
  /-- The number of rumor rounds. -/
  | rumorRounds
  /-- The node that makes the broadcast. -/
  | origin
  /-- The key that is broadcast. -/
  | key
  /-- How long to wait for agreement, in milliseconds. -/
  | timeout
  deriving DecidableEq

/-- The flag that an argument names. -/
def Flag.ofArgument? (argument : String) : Option Flag :=
  match argument with
  | "--config" => some .config
  | "--nodes" => some .nodes
  | "--fanout" => some .fanout
  | "--latency-ms" => some .latency
  | "--jitter-ms" => some .jitter
  | "--drop-rate" => some .dropRate
  | "--seed" => some .seed
  | "--rumor-rounds" => some .rumorRounds
  | "--from" => some .origin
  | "--key" => some .key
  | "--timeout-ms" => some .timeout
  | _ => none

/-- The parts of an argument list. -/
inductive Item where
  /-- A flag with its value. -/
  | setting (flag : Flag) (value : String)
  /-- The wish for more messages. -/
  | verbose
  /-- An argument that means nothing. -/
  | unrecognised (argument : String)

namespace Item

/-- An argument that stands for itself. -/
def single (argument : String) : Item :=
  if argument = "--verbose" then .verbose else .unrecognised argument

/-- The parts of an argument list. -/
def ofArguments : List String → List Item
  | [] => []
  | [argument] => [single argument]
  | argument :: value :: rest =>
    match Flag.ofArgument? argument with
    | some flag => .setting flag value :: ofArguments rest
    | none => single argument :: ofArguments (value :: rest)

end Item

/-! ## Values -/

/-- Why a value is no number. -/
inductive NumberFault where
  /-- There are no digits at all. -/
  | emptyInteger
  /-- There is something that is no digit. -/
  | invalidDigit
  /-- The number is too large. -/
  | tooLarge
  /-- There is no decimal at all. -/
  | emptyFloat
  /-- It is no decimal. -/
  | invalidFloat
  deriving DecidableEq

/-- The wording of a fault. -/
def NumberFault.message : NumberFault → String
  | .emptyInteger => "cannot parse integer from empty string"
  | .invalidDigit => "invalid digit found in string"
  | .tooLarge => "number too large to fit in target type"
  | .emptyFloat => "cannot parse float from empty string"
  | .invalidFloat => "invalid float literal"

/-- Reads digits onto a number below a limit; the first thing that is wrong counts. -/
def readDigits (limit : Nat) : (value : Nat) → List Char → Except NumberFault Nat
  | value, [] => .ok value
  | value, c :: rest =>
    match Decimal.digit? c with
    | none => .error .invalidDigit
    | some digit =>
      if 10 * value + digit < limit then readDigits limit (10 * value + digit) rest
      else .error .tooLarge

/-- Reads a natural number below a limit; a plus sign may stand in front. -/
def readNatural (limit : Nat) (text : String) : Except NumberFault Nat :=
  match text.toList with
  | [] => .error .emptyInteger
  | ['+'] => .error .invalidDigit
  | '+' :: digits => readDigits limit 0 digits
  | digits => readDigits limit 0 digits

/-- Reads a natural number of 64 bits. -/
def readWord (text : String) : Except NumberFault Nat := readNatural Width.words64 text

/-- Digits with the sign of an exponent in front. -/
def readSigned (text : List Char) : Option Int :=
  let (negative, text) :=
    match text with
    | '-' :: rest => (true, rest)
    | '+' :: rest => (false, rest)
    | rest => (false, rest)
  let (digits, rest) := Decimal.takeDigits text
  let size : Int := Decimal.ofDigits digits
  if digits.isEmpty || !rest.isEmpty then none else some (if negative then -size else size)

/-- A decimal without sign: digits with a point among, before or after them, and an exponent. -/
def readDecimal (negative : Bool) (text : List Char) : Option Decimal.Literal := do
  let (whole, text) := Decimal.takeDigits text
  let (fraction, text) :=
    match text with
    | '.' :: rest => Decimal.takeDigits rest
    | rest => ([], rest)
  if whole.isEmpty && fraction.isEmpty then none
  else
    match text with
    | [] => some ⟨negative, whole, some fraction, none⟩
    | c :: rest =>
      if c = 'e' ∨ c = 'E' then
        let exponent ← readSigned rest
        some ⟨negative, whole, some fraction, some exponent⟩
      else none

/-- Reads a decimal as the nearest double. Infinity and what is no number have names, which may be
written in letters of either case. -/
def readFloat (text : String) : Except NumberFault Binary64 :=
  let (negative, body) :=
    match text.toList with
    | '-' :: rest => (true, rest)
    | '+' :: rest => (false, rest)
    | rest => (false, rest)
  let name := String.ofList (body.map Char.toLower)
  if text.isEmpty then .error .emptyFloat
  else if name = "inf" ∨ name = "infinity" then .ok (.infinity negative)
  else if name = "nan" then .ok .nan
  else
    match readDecimal negative body with
    | some literal => .ok literal.nearest
    | none => .error .invalidFloat

end Epidemic.Command
