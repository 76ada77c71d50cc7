import Epidemic.Binary64
import Mathlib.Algebra.Order.Field.Power
import Mathlib.Algebra.Order.Field.Rat
import Mathlib.Order.Monotone.Basic
import Mathlib.Tactic.Linarith
import Mathlib.Tactic.NormNum

/-!
# The numbers that doubles stand for

A finite double stands for its significand times a power of two, with its sign. The code after a code
has the next significand, or half of it and twice the power: either way it stands for the least
greater number. So codes are ordered as the numbers they stand for, and the comparisons of codes by
which loss rates are checked are comparisons of numbers.
-/

namespace Epidemic.Binary64

/-- The absolute value of a finite number. -/
def size (x : Binary64) : ℚ := x.significand * 2 ^ x.exponent

/-- The number that a finite double stands for. -/
def value (x : Binary64) : ℚ := if x.negative then -x.size else x.size

/-- The code after a code has the next significand, with the same power or half of it with the next
power. -/
theorem significand_succ (code : Nat) :
    (significand ⟨false, code + 1⟩ = significand ⟨false, code⟩ + 1 ∧
      exponent ⟨false, code + 1⟩ = exponent ⟨false, code⟩) ∨
    (2 * significand ⟨false, code + 1⟩ = significand ⟨false, code⟩ + 1 ∧
      exponent ⟨false, code + 1⟩ = exponent ⟨false, code⟩ + 1) := by
  unfold significand exponent hiddenBit
  dsimp only
  split <;> split <;> omega

/-- The code after a code stands for the number that is greater by one unit of the significand. -/
theorem size_succ (code : Nat) :
    size ⟨false, code + 1⟩ =
      (significand ⟨false, code⟩ + 1) * 2 ^ exponent ⟨false, code⟩ := by
  rcases significand_succ code with ⟨hsignificand, hexponent⟩ | ⟨hsignificand, hexponent⟩
  · rw [size, hsignificand, hexponent, Nat.cast_succ]
  · have hcast : (2 : ℚ) * significand ⟨false, code + 1⟩ = significand ⟨false, code⟩ + 1 := by
      exact_mod_cast hsignificand
    rw [size, hexponent, zpow_add_one₀ two_ne_zero, ← hcast, mul_comm (2 : ℚ), mul_assoc,
      mul_comm (2 : ℚ)]

/-- Codes are ordered as the numbers they stand for. -/
theorem size_strictMono : StrictMono fun code => size ⟨false, code⟩ := by
  refine strictMono_nat_of_lt_succ fun code => ?_
  have hunit : (0 : ℚ) < 2 ^ exponent ⟨false, code⟩ := zpow_pos two_pos _
  rw [size_succ, size]
  exact mul_lt_mul_of_pos_right (lt_add_one _) hunit

/-- Of two numbers the one with the lesser code has the lesser absolute value. -/
theorem size_le_iff {x y : Binary64} : x.size ≤ y.size ↔ x.magnitude ≤ y.magnitude :=
  size_strictMono.le_iff_le

/-- Zero stands for zero. -/
theorem size_zero : zero.size = 0 := by
  simp [size, significand, zero, hiddenBit]

/-- One stands for one. -/
theorem size_one : one.size = 1 := by
  norm_num [size, significand, exponent, one, hiddenBit]

/-- An absolute value is zero only for a zero. -/
theorem size_le_zero_iff {x : Binary64} : x.size ≤ 0 ↔ x.magnitude = 0 := by
  rw [← size_zero, size_le_iff]
  exact Nat.le_zero

/-- No absolute value is negative. -/
theorem size_nonneg (x : Binary64) : 0 ≤ x.size := by
  rw [← size_zero, size_le_iff]
  exact Nat.zero_le _

/-- Whether a double is a number from zero to one. -/
def InUnitInterval (x : Binary64) : Prop := x.isFinite = true ∧ 0 ≤ x.value ∧ x.value ≤ 1

instance (x : Binary64) : Decidable x.InUnitInterval := instDecidableAnd

/-- A loss rate passes its check exactly if it is a number from zero to one. -/
theorem isProbability_iff {x : Binary64} : x.isProbability = true ↔ x.InUnitInterval := by
  have hcheck : x.isProbability = true ↔ x.size ≤ 0 ∨ x.negative = false ∧ x.size ≤ 1 := by
    rw [size_le_zero_iff, ← size_one, size_le_iff]
    simp [isProbability]
  have hfinite : x.size ≤ 1 → x.isFinite = true := by
    rw [← size_one, size_le_iff, isFinite, decide_eq_true_eq]
    exact fun hle => hle.trans_lt (by decide)
  have hnonneg := x.size_nonneg
  rw [hcheck, InUnitInterval, value]
  cases x.negative with
  | true =>
    rw [if_pos rfl]
    constructor
    · rintro (hzero | ⟨hsign, -⟩)
      · exact ⟨hfinite (by linarith), by linarith, by linarith⟩
      · cases hsign
    · rintro ⟨-, hzero, -⟩
      exact Or.inl (by linarith)
  | false =>
    rw [if_neg Bool.false_ne_true]
    constructor
    · rintro (hzero | ⟨-, hle⟩)
      · exact ⟨hfinite (by linarith), hnonneg, by linarith⟩
      · exact ⟨hfinite hle, hnonneg, hle⟩
    · rintro ⟨-, -, hle⟩
      exact Or.inr ⟨rfl, hle⟩

/-- A finite number is positive exactly if it is greater than zero. -/
theorem isPositive_iff {x : Binary64} (h : x.isFinite = true) :
    x.isPositive = true ↔ 0 < x.value := by
  have hcheck : x.isPositive = true ↔ x.negative = false ∧ 0 < x.size := by
    rw [isFinite, decide_eq_true_eq] at h
    rw [← not_le, size_le_zero_iff]
    simp [isPositive, Nat.pos_iff_ne_zero, h.le]
  have hnonneg := x.size_nonneg
  rw [hcheck, value]
  cases x.negative with
  | true =>
    rw [if_pos rfl]
    exact iff_of_false (fun hsign => nomatch hsign.1) (by linarith)
  | false =>
    rw [if_neg Bool.false_ne_true]
    exact and_iff_right rfl

/-- No double but one stands for one. -/
theorem eq_one_of_value {x : Binary64} (h : x.value = 1) : x = one := by
  obtain ⟨negative, magnitude⟩ := x
  have hnonneg := size_nonneg ⟨negative, magnitude⟩
  cases negative with
  | true =>
    rw [value, if_pos rfl] at h
    linarith
  | false =>
    rw [value, if_neg Bool.false_ne_true, ← size_one] at h
    exact congrArg (Binary64.mk false) (size_strictMono.injective h)

end Epidemic.Binary64
