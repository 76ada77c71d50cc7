import Epidemic.Decimal.Shortest

/-!
# Writing doubles

A layout says how the shortest decimal of a double is laid out: where the decimal point is set
directly and where an exponent is written, whether an integral number keeps a fractional part, and
which texts stand for what is not a finite number.
-/

namespace Epidemic.Decimal

/-- The decisions that turn a double into text. -/
structure Layout where
  /-- The choice between two equally near decimals. -/
  tie : Tie
  /-- The exponents of the first digit, from the first of the pair to the second, at which the
  number is written without an exponent; none means always. -/
  positional : Option (Int × Int)
  /-- Whether an integral number is written with the fractional part `.0`. -/
  keepsFraction : Bool
  /-- The text of infinity, without sign. -/
  infinityText : List Char
  /-- Whether negative infinity carries its sign. -/
  signsInfinity : Bool
  /-- The text of what is not a number. -/
  nanText : List Char

/-- Digits without the zeros at their end, and how many zeros there were. -/
def trimZeros (digits : List Nat) : List Nat × Nat :=
  let kept := (digits.reverse.dropWhile (· == 0)).reverse
  (kept, digits.length - kept.length)

/-- Digits with the point after the first `point` of them, and zeros where there are no digits. -/
def setPoint (digits : List Nat) (point : Int) (keepsFraction : Bool) : List Char :=
  let text := digits.map digitChar
  if digits.length ≤ point then
    text ++ List.replicate (point.toNat - digits.length) '0' ++
      (if keepsFraction then ['.', '0'] else [])
  else if 0 < point then text.take point.toNat ++ '.' :: text.drop point.toNat
  else '0' :: '.' :: List.replicate (-point).toNat '0' ++ text

/-- The first digit, a point before the others, and the exponent of the first digit, which always
has a sign. -/
def setExponent (digits : List Nat) (exponent : Int) : List Char :=
  let text := digits.map digitChar
  let mantissa :=
    match text with
    | first :: second :: rest => first :: '.' :: second :: rest
    | short => short
  mantissa ++ 'e' :: (if exponent < 0 then '-' else '+') :: natText exponent.natAbs

namespace Layout

/-- The text of a finite absolute value. -/
def absolute (layout : Layout) (x : Binary64) : List Char :=
  if x.magnitude = 0 then setPoint [0] 1 layout.keepsFraction
  else
    let decimal := shortest layout.tie x
    let (digits, zeros) := trimZeros (digitsOf decimal.coefficient)
    let point := decimal.power + zeros + digits.length
    match layout.positional with
    | none => setPoint digits point layout.keepsFraction
    | some (low, high) =>
      if low ≤ point - 1 ∧ point - 1 ≤ high then setPoint digits point layout.keepsFraction
      else setExponent digits (point - 1)

/-- The text of a double. -/
def write (layout : Layout) (x : Binary64) : List Char :=
  if x.isNaN then layout.nanText
  else if x.isFinite then
    (if x.negative then ['-'] else []) ++ layout.absolute x
  else (if x.negative && layout.signsInfinity then ['-'] else []) ++ layout.infinityText

end Layout

end Epidemic.Decimal
