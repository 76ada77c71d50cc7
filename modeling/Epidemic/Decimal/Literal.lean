import Epidemic.Binary64
import Epidemic.Decimal.Digits
import Epidemic.Width

/-!
# Decimal literals as doubles

A literal keeps the digits of a written number. It is read as a double in one of two ways: rounded
once to the nearest double, or in the quicker way that first cuts the digits to a 64-bit integer
and then scales it by a power of ten, which rounds at each of these steps.
-/

namespace Epidemic.Decimal

/-- A number as it is written: sign, digits before and after the point, and exponent. -/
structure Literal where
  /-- Whether a minus sign stands in front. -/
  negative : Bool
  /-- The digits before the point. -/
  whole : List Nat
  /-- The digits after the point; none when there is no point. -/
  fraction : Option (List Nat)
  /-- The exponent; none when it is not written. -/
  exponent : Option Int

namespace Literal

/-- Whether the literal has neither point nor exponent. -/
def isInteger (literal : Literal) : Bool :=
  literal.fraction.isNone && literal.exponent.isNone

/-- The digits after the point, none if it is missing. -/
def decimals (literal : Literal) : List Nat := literal.fraction.getD []

/-- The absolute value of an integer literal. -/
def natAbs (literal : Literal) : Nat := ofDigits literal.whole

/-- The literal as an integer coefficient with a power of ten. -/
def coefficient (literal : Literal) : Nat := ofDigits (literal.whole ++ literal.decimals)

/-- The power of ten that belongs to the coefficient. -/
def power (literal : Literal) : Int := literal.exponent.getD 0 - literal.decimals.length

/-- The nearest double. A coefficient that begins beyond the range of doubles is not multiplied
out. -/
def nearest (literal : Literal) : Binary64 :=
  let coefficient := literal.coefficient
  let length : Int := (digitsOf coefficient).length
  if coefficient = 0 then ⟨literal.negative, 0⟩
  else if 310 < literal.power + length then .infinity literal.negative
  else if literal.power + length < -330 then ⟨literal.negative, 0⟩
  else
    .ofQuotient literal.negative
      (coefficient * tenTo literal.power.toNat) (tenTo (-literal.power).toNat)

/-- Digits added to a 64-bit integer as long as they fit, and the digits that did not. -/
def takeFitting : Nat → List Nat → Nat × List Nat
  | value, [] => (value, [])
  | value, digit :: rest =>
    if 10 * value + digit < Width.words64 then takeFitting (10 * value + digit) rest
    else (value, digit :: rest)

/-- The double nearest to a power of ten. -/
def powerOfTen (n : Nat) : Binary64 := .ofQuotient false (tenTo n) 1

/-- Scales by a power of ten in steps that stay within the range of doubles; none when the result
is too large. Below the range a number is first divided by `10 ^ 308`, as often as it takes. -/
def scale : (steps : Nat) → Binary64 → Int → Option Binary64
  | steps, x, power =>
    if 308 < power then (if x.magnitude = 0 then some x else none)
    else if 0 ≤ power then
      let product := x.mul (powerOfTen power.toNat)
      if product.isFinite then some product else none
    else if -308 ≤ power then some (x.div (powerOfTen (-power).toNat))
    else match steps with
      | 0 => some ⟨x.negative, 0⟩
      | steps + 1 =>
        if x.magnitude = 0 then some x
        else scale steps (x.div (powerOfTen 308)) (power + 308)

/-- The double of the digits that fit a 64-bit integer, scaled by the power of ten that the others
leave; none when it is too large. Digits before the point that do not fit count by their number,
digits after it not at all. Three divisions by `10 ^ 308` leave nothing of any 64-bit integer. -/
def scaled (literal : Literal) : Option Binary64 :=
  let (value, overflow) := takeFitting 0 literal.whole
  let (value, unread) := takeFitting value literal.decimals
  let power := literal.exponent.getD 0 + overflow.length + unread.length - literal.decimals.length
  (scale 4 (.ofInt value) power).map fun x => ⟨literal.negative, x.magnitude⟩

end Literal

end Epidemic.Decimal
