/-!
# Double precision numbers

A double is kept as its sign and the remaining 63 bits of its IEEE 754 encoding, read as a natural
number. Encodings of one sign are ordered as the numbers they stand for, so the comparisons that
loss rates need are comparisons of naturals, and every operation here is exact arithmetic followed
by one rounding to the nearest double, ties to the even neighbour.
-/

namespace Epidemic

/-- A double precision number: sign and 63-bit magnitude code. Codes above `infinityCode` are not
numbers; both signs of the zero code are zeros. -/
structure Binary64 where
  /-- The sign bit. -/
  negative : Bool
  /-- The encoding without its sign bit. -/
  magnitude : Nat
  deriving DecidableEq

namespace Binary64

/-- The weight of the leading significand bit, which the encoding of a normal number leaves out:
`2 ^ 52`. The fields for exponent and fraction meet there. -/
def hiddenBit : Nat := 0x10000000000000

/-- The magnitude code of the infinities. -/
def infinityCode : Nat := 0x7FF * hiddenBit

/-- The number one. -/
def one : Binary64 := ⟨false, 0x3FF * hiddenBit⟩

/-- Positive zero. -/
def zero : Binary64 := ⟨false, 0⟩

/-- Infinity of the given sign. -/
def infinity (negative : Bool) : Binary64 := ⟨negative, infinityCode⟩

/-- An encoding that is not a number. -/
def nan : Binary64 := ⟨false, infinityCode + hiddenBit / 2⟩

/-- Whether the encoding is not a number. -/
def isNaN (x : Binary64) : Bool := infinityCode < x.magnitude

/-- Whether the encoding is that of a finite number. -/
def isFinite (x : Binary64) : Bool := x.magnitude < infinityCode

/-- The integer significand of a finite number. -/
def significand (x : Binary64) : Nat :=
  if x.magnitude < hiddenBit then x.magnitude else hiddenBit + x.magnitude % hiddenBit

/-- The binary exponent that belongs to the integer significand. -/
def exponent (x : Binary64) : Int :=
  if x.magnitude < hiddenBit then -1074 else (x.magnitude / hiddenBit : Nat) - 1075

/-- Whether the number is greater than zero. -/
def isPositive (x : Binary64) : Bool :=
  !x.negative && 0 < x.magnitude && x.magnitude ≤ infinityCode

/-- Whether the number lies from zero to one, both ends included. Negative zero is zero. -/
def isProbability (x : Binary64) : Bool :=
  x.magnitude = 0 || (!x.negative && x.magnitude ≤ one.magnitude)

/-- Equality of numbers: the two zeros are equal, and what is not a number equals nothing. -/
def equals (x y : Binary64) : Bool :=
  !x.isNaN && !y.isNaN && (x.magnitude = y.magnitude && (x.negative = y.negative || x.magnitude = 0))

/-- The whole part of a finite number's absolute value times `2 ^ bits`. -/
def scaledFloor (x : Binary64) (bits : Nat) : Nat :=
  let shift := x.exponent + bits
  x.significand <<< shift.toNat >>> (-shift).toNat

/-- The integer nearest to a quotient; of two equally near ones, the even one. -/
def nearestQuotient (numerator denominator : Nat) : Nat :=
  let quotient := numerator / denominator
  let twice := 2 * (numerator % denominator)
  if twice < denominator then quotient
  else if denominator < twice then quotient + 1
  else quotient + quotient % 2

/-- The binary exponent of the first digit of a quotient of positive numbers. -/
def leadingExponent (numerator denominator : Nat) : Int :=
  let guess : Int := (numerator.log2 : Int) - denominator.log2
  if denominator <<< guess.toNat ≤ numerator <<< (-guess).toNat then guess else guess - 1

/-- The double nearest to a quotient with the given sign. Quotients from half a unit above the
greatest finite number on become infinite. -/
def ofQuotient (negative : Bool) (numerator denominator : Nat) : Binary64 :=
  if numerator = 0 then ⟨negative, 0⟩
  else
    let unit := max (leadingExponent numerator denominator - 52) (-1074)
    let rounded := nearestQuotient (numerator <<< (-unit).toNat) (denominator <<< unit.toNat)
    ⟨negative, min infinityCode ((unit + 1074).toNat * hiddenBit + rounded)⟩

/-- The double nearest to an integer. -/
def ofInt (n : Int) : Binary64 := ofQuotient (n < 0) n.natAbs 1

/-- The product of two finite numbers. -/
def mul (x y : Binary64) : Binary64 :=
  let exponent := x.exponent + y.exponent
  ofQuotient (x.negative != y.negative)
    (x.significand * y.significand <<< exponent.toNat) (1 <<< (-exponent).toNat)

/-- The quotient of a finite number by a finite number other than zero. -/
def div (x y : Binary64) : Binary64 :=
  let exponent := x.exponent - y.exponent
  ofQuotient (x.negative != y.negative)
    (x.significand <<< exponent.toNat) (y.significand <<< (-exponent).toNat)

end Binary64

end Epidemic
