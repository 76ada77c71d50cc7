import Epidemic.Json.Writer
import Epidemic.Random.Source

/-!
# Names of nodes and broadcasts

Nodes are named by whoever sets up a network. A broadcast gets a random name, long enough that no
two broadcasts share one.
-/

namespace Epidemic

/-- The name of a participant. Names are ordered by their code points. -/
abbrev NodeId := String

/-- The name of one broadcast. -/
abbrev MessageId := String

namespace MessageId

/-- The places of the hyphens in an id of 32 hexadecimal digits: after the given numbers of
digits. -/
def groups : List Nat := [8, 4, 4, 4, 12]

/-- Lower-case hexadecimal digits of a number, the given count of them. -/
def hexDigits : (count : Nat) → Nat → List Char
  | 0, _ => []
  | count + 1, n => hexDigits count (n / 16) ++ [Json.hexDigit (n % 16)]

/-- Digits in groups of the given lengths, with hyphens between the groups. -/
def hyphenated : List Nat → List Char → List Char
  | [], digits => digits
  | [_], digits => digits
  | length :: rest, digits => digits.take length ++ '-' :: hyphenated rest (digits.drop length)

/-- A random id: two words as 32 hexadecimal digits, the thirteenth being the version `4` and the
two upper bits of the seventeenth being `10`. -/
def random {σ : Type} [Random.Source σ] (state : σ) : MessageId × σ :=
  let (first, state) := Random.Source.next state
  let (second, state) := Random.Source.next state
  let upper := first.toNat / 0x10000 * 0x10000 + 0x4000 + first.toNat % 0x1000
  let lower := 0x8000000000000000 + second.toNat % 0x4000000000000000
  (String.ofList (hyphenated groups (hexDigits 16 upper ++ hexDigits 16 lower)), state)

/-- Whether a character is a lower-case hexadecimal digit. -/
def isHexDigit (c : Char) : Bool := c.isDigit || ('a' ≤ c && c ≤ 'f')

/-- Whether an id has the form of a random one. -/
def isRandom (id : MessageId) : Bool :=
  let digits := id.toList.filter (· != '-')
  digits.length == 32 && digits.all isHexDigit && hyphenated groups digits == id.toList &&
    digits[12]? == some '4' && (digits.drop 16).head?.any (['8', '9', 'a', 'b'].contains ·)

end MessageId

end Epidemic
