/-!
# Fixed widths

How many values the words of a fixed width have. A natural number fits a width if it is less. The
arithmetic of words is that of natural numbers, as long as every result fits; here it is asked for with
a check, and there is no result that does not fit.
-/

namespace Epidemic.Width

/-- The number of 32-bit words, `2 ^ 32`. -/
abbrev words32 : Nat := 0x100000000

/-- The number of 64-bit words, `2 ^ 64`. -/
abbrev words64 : Nat := 0x10000000000000000

/-- A 64-bit word is less than their number. -/
theorem toNat_lt (word : UInt64) : word.toNat < words64 := word.toNat_lt

/-- A sum, if it fits 64 bits. -/
def plus? (a b : Nat) : Option Nat := if a + b < words64 then some (a + b) else none

/-- A difference, if it is not negative. -/
def minus? (a b : Nat) : Option Nat := if b ≤ a then some (a - b) else none

/-- A product, if it fits 64 bits. -/
def times? (a b : Nat) : Option Nat := if a * b < words64 then some (a * b) else none

/-- A quotient of words, a begun part being counted as a whole. -/
def ceilDiv? (a b : Nat) : Option Nat := if 0 < a % b then plus? (a / b) 1 else some (a / b)

/-- The number nearest to a given one between a least and a greatest, if these are in order. -/
def clamp? (a least greatest : Nat) : Option Nat :=
  if least ≤ greatest then some (min (max a least) greatest) else none

/-- How many zeros stand before the first one among the 64 binary digits of a word. -/
def leadingZeros (a : Nat) : Nat := (BitVec.ofNat 64 a).clz.toNat

end Epidemic.Width
