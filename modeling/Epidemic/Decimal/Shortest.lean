import Epidemic.Binary64
import Epidemic.Decimal.Digits

/-!
# The shortest decimal of a double

Every decimal in an interval around a finite double reads back as this double. Among the multiples
of a power of ten only the two neighbours of the double can be the nearest ones in the interval,
so the powers are tried from large to small and the first one with a neighbour inside gives the
shortest decimal.
-/

namespace Epidemic.Decimal

/-- Which of two equally near decimals is written. -/
inductive Tie where
  /-- The one whose last digit is even. -/
  | toEven
  /-- The greater one. -/
  | up

/-- Binary fractions with one denominator: a positive double between the two ends of the interval
that reads back as it. -/
structure Interval where
  /-- The numerator of the lower end. -/
  lower : Nat
  /-- The numerator of the double. -/
  centre : Nat
  /-- The numerator of the upper end. -/
  upper : Nat
  /-- The denominator of all three. -/
  denominator : Nat
  /-- Whether the ends themselves read back as the double. -/
  isClosed : Bool

namespace Interval

/-- The interval of a finite double other than zero. Below a power of two the neighbouring double
is only half as far away. -/
def around (x : Binary64) : Interval :=
  let m := x.significand
  let shift := x.exponent - 2
  let below := if m = Binary64.hiddenBit ∧ 2 * Binary64.hiddenBit ≤ x.magnitude then 1 else 2
  { lower := (4 * m - below) <<< shift.toNat
    centre := (4 * m) <<< shift.toNat
    upper := (4 * m + 2) <<< shift.toNat
    denominator := 1 <<< (-shift).toNat
    isClosed := m % 2 = 0 }

/-- The interval measured in units of a power of ten. -/
def inUnits (interval : Interval) (power : Int) : Interval :=
  let up := tenTo (-power).toNat
  { interval with
    lower := interval.lower * up
    centre := interval.centre * up
    upper := interval.upper * up
    denominator := interval.denominator * tenTo power.toNat }

/-- Whether an integer lies in the interval. -/
def contains (interval : Interval) (n : Nat) : Bool :=
  let scaled := n * interval.denominator
  if interval.isClosed then interval.lower ≤ scaled && scaled ≤ interval.upper
  else interval.lower < scaled && scaled < interval.upper

/-- The integer nearest to the centre among its two neighbours that lie in the interval. -/
def nearest? (interval : Interval) (tie : Tie) : Option Nat :=
  let floor := interval.centre / interval.denominator
  match interval.contains floor, interval.contains (floor + 1) with
  | false, false => none
  | true, false => some floor
  | false, true => some (floor + 1)
  | true, true =>
    let below := interval.centre - floor * interval.denominator
    let above := (floor + 1) * interval.denominator - interval.centre
    if below < above then some floor
    else if above < below then some (floor + 1)
    else match tie with
      | .toEven => some (floor + floor % 2)
      | .up => some (floor + 1)

end Interval

/-- A decimal `coefficient * 10 ^ power`. -/
structure Scaled where
  /-- The integer coefficient. -/
  coefficient : Nat
  /-- The power of ten it is multiplied by. -/
  power : Int

/-- Tries powers of ten downwards from the given one, at most `count` of them. -/
def searchDown (interval : Interval) (tie : Tie) : (count : Nat) → (power : Int) → Scaled
  | 0, power =>
    let units := interval.inUnits power
    ⟨units.centre / units.denominator, power⟩
  | count + 1, power =>
    match (interval.inUnits power).nearest? tie with
    | some coefficient => ⟨coefficient, power⟩
    | none => searchDown interval tie count (power - 1)

/-- The shortest decimal that reads back as the absolute value of a finite double other than zero,
and of these the nearest one. The search begins above the first digit: a power of ten is at least
as large as the double once its exponent reaches `0.30103` times the binary one, plus one. It ends
within nineteen steps, because seventeen digits always read back. -/
def shortest (tie : Tie) (x : Binary64) : Scaled :=
  let leading := x.exponent + x.significand.log2
  searchDown (Interval.around x) tie 20 (leading * 30103 / 100000 + 1)

end Epidemic.Decimal
