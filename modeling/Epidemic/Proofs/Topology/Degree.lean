import Epidemic.Proofs.Topology.Stitching
import Epidemic.Width
import Mathlib.Algebra.Order.Monoid.Unbundled.Pow
import Mathlib.Order.Bounds.Defs

/-!
# How many links a node draws

The number of links that a node draws can be computed in words of 64 bits: no result leaves their range,
and the greatest number allowed is never below the least. In a large population the number is the least
number of binary digits by which all nodes can be told apart, in a small one the least number that makes
three tenths of the population.
-/

namespace Epidemic

namespace Width

/-- The binary digits of a word other than zero follow its leading zeros. -/
theorem minus?_leadingZeros {a : Nat} (hpos : 0 < a) (hword : a < words64) :
    minus? 64 (leadingZeros a) = some (a.log2 + 1) := by
  have hvalue : (BitVec.ofNat 64 a).toNat = a := Nat.mod_eq_of_lt hword
  have hne : BitVec.ofNat 64 a ≠ 0 := by
    intro hzero
    rw [hzero] at hvalue
    exact absurd hvalue (Nat.ne_of_lt hpos)
  have hfew : leadingZeros a < 64 := BitVec.clz_lt_iff_ne_zero.mpr hne
  have hupper : a < 2 ^ (64 - leadingZeros a) := by
    have h := @BitVec.toNat_lt_two_pow_sub_clz _ (BitVec.ofNat 64 a)
    rwa [hvalue] at h
  have hlower : 2 ^ (63 - leadingZeros a) ≤ a := by
    have h := BitVec.two_pow_sub_clz_le_toNat_of_ne_zero (by decide) hne
    rwa [hvalue] at h
  have hlog : a.log2 = 63 - leadingZeros a := by
    rw [Nat.log2_eq_iff (Nat.ne_of_gt hpos)]
    refine ⟨hlower, ?_⟩
    have hsucc : 63 - leadingZeros a + 1 = 64 - leadingZeros a := by omega
    rwa [hsucc]
  rw [minus?, if_pos (Nat.le_of_lt hfew), hlog]
  congr 1
  omega

/-- Begun parts are counted by what is added to the dividend. -/
theorem ceilDiv?_ten {a : Nat} (h : a < words64) : ceilDiv? a 10 = some ((a + 9) / 10) := by
  have hwords : words64 = 0x10000000000000000 := rfl
  have hfits : a / 10 + 1 < words64 := by omega
  rw [ceilDiv?, plus?, if_pos hfits]
  split
  · congr 1
    omega
  · congr 1
    omega

end Width

namespace Topology

open Width (minus? times? clamp?)

/-- The degree in a population, before it is seen to that there are enough others. -/
def wantedDegree (nodeCount : Nat) : Nat :=
  if largePopulation < nodeCount then (nodeCount - 1).log2 + 1 else (nodeCount * 3 + 9) / 10

/-- In a population whose size is a word it can be computed. -/
theorem wantedDegree?_eq {nodeCount : Nat} (h : nodeCount < Width.words64) :
    wantedDegree? nodeCount = some (wantedDegree nodeCount) := by
  unfold wantedDegree? wantedDegree
  split
  · rename_i hlarge
    have hlarge : 64 < nodeCount := hlarge
    have hgreatest : minus? nodeCount 1 = some (nodeCount - 1) := if_pos (by omega)
    rw [hgreatest]
    exact Width.minus?_leadingZeros (by omega) (by omega)
  · rename_i hsmall
    have hsmall : nodeCount ≤ 64 := Nat.le_of_not_lt hsmall
    have hfits : nodeCount * 3 < Width.words64 :=
      Nat.lt_of_le_of_lt (Nat.mul_le_mul_right 3 hsmall) (by decide)
    have htenths : times? nodeCount 3 = some (nodeCount * 3) := if_pos hfits
    rw [htenths]
    exact Width.ceilDiv?_ten hfits

/-- In a population of two or more nodes it is between one and the number of the others. -/
theorem wantedDegree_bounds {nodeCount : Nat} (h : 2 ≤ nodeCount) :
    1 ≤ wantedDegree nodeCount ∧ wantedDegree nodeCount ≤ nodeCount - 1 := by
  unfold wantedDegree
  split
  · have hne : nodeCount - 1 ≠ 0 := by omega
    have hlog : (nodeCount - 1).log2 < nodeCount - 1 :=
      (Nat.log2_lt hne).mpr Nat.lt_two_pow_self
    exact ⟨Nat.le_add_left 1 _, hlog⟩
  · omega

/-- So nothing remains to be seen to. -/
theorem targetDegree_eq {nodeCount : Nat} (h : 2 ≤ nodeCount) :
    targetDegree nodeCount = wantedDegree nodeCount := by
  obtain ⟨hone, hothers⟩ := wantedDegree_bounds h
  rw [targetDegree, if_neg (Nat.not_lt_of_le h)]
  change min (max (wantedDegree nodeCount) 1) (nodeCount - 1) = wantedDegree nodeCount
  rw [Nat.max_eq_left hone, Nat.min_eq_left hothers]

/-- In a population whose size is a word the number of links can be computed. -/
theorem targetDegree?_eq {nodeCount : Nat} (h : nodeCount < Width.words64) :
    targetDegree? nodeCount = some (targetDegree nodeCount) := by
  unfold targetDegree?
  split
  · rename_i hfew
    rw [targetDegree, if_pos hfew]
  · rename_i hmany
    have hothers : minus? nodeCount 1 = some (nodeCount - 1) := if_pos (by omega)
    have hclamp : clamp? (wantedDegree nodeCount) 1 (nodeCount - 1) =
        some (min (max (wantedDegree nodeCount) 1) (nodeCount - 1)) := if_pos (by omega)
    rw [wantedDegree?_eq h, hothers, targetDegree, if_neg hmany]
    exact hclamp

/-- In a large population the binary digits of the greatest node number are as many as are needed to
tell all nodes apart. -/
theorem isLeast_wantedDegree_of_large {nodeCount : Nat} (h : largePopulation < nodeCount) :
    IsLeast {digits | nodeCount ≤ 2 ^ digits} (wantedDegree nodeCount) := by
  have hlarge : 64 < nodeCount := h
  have hne : nodeCount - 1 ≠ 0 := by omega
  have henough (digits : Nat) : nodeCount ≤ 2 ^ digits ↔ wantedDegree nodeCount ≤ digits := by
    have hlog : (nodeCount - 1).log2 < digits ↔ nodeCount - 1 < 2 ^ digits := Nat.log2_lt hne
    rw [wantedDegree, if_pos h]
    omega
  exact ⟨(henough _).mpr (Nat.le_refl _), fun digits hdigits => (henough digits).mp hdigits⟩

/-- In a small population three tenths of it are rounded up. -/
theorem isLeast_wantedDegree_of_small {nodeCount : Nat} (h : nodeCount ≤ largePopulation) :
    IsLeast {degree | 3 * nodeCount ≤ 10 * degree} (wantedDegree nodeCount) := by
  have henough (degree : Nat) : 3 * nodeCount ≤ 10 * degree ↔ wantedDegree nodeCount ≤ degree := by
    rw [wantedDegree, if_neg (Nat.not_lt_of_le h)]
    omega
  exact ⟨(henough _).mpr (Nat.le_refl _), fun degree hdegree => (henough degree).mp hdegree⟩

/-- In every population whose size is a word of 64 bits the number of links that a node draws can be
computed, without a result that does not fit a word, a negative difference, or a greatest number below
the least. It is zero if there are no others, and otherwise at least one and no more than there are
others. In a large population it is the least number of binary digits that tell all nodes apart, in a
small one the least number that makes three tenths of the population. -/
theorem target_degree_is_least {nodeCount : Nat} (h : nodeCount < Width.words64) :
    targetDegree? nodeCount = some (targetDegree nodeCount) ∧
    (nodeCount < 2 → targetDegree nodeCount = 0) ∧
    (2 ≤ nodeCount → 1 ≤ targetDegree nodeCount ∧ targetDegree nodeCount ≤ nodeCount - 1) ∧
    (largePopulation < nodeCount →
      IsLeast {digits | nodeCount ≤ 2 ^ digits} (targetDegree nodeCount)) ∧
    (2 ≤ nodeCount → nodeCount ≤ largePopulation →
      IsLeast {degree | 3 * nodeCount ≤ 10 * degree} (targetDegree nodeCount)) := by
  refine ⟨targetDegree?_eq h, fun hfew => if_pos hfew, fun htwo => ?_, fun hlarge => ?_,
    fun htwo hsmall => ?_⟩
  · rw [targetDegree_eq htwo]
    exact wantedDegree_bounds htwo
  · have htwo : 2 ≤ nodeCount := Nat.le_trans (by decide) (Nat.le_of_lt hlarge)
    rw [targetDegree_eq htwo]
    exact isLeast_wantedDegree_of_large hlarge
  · rw [targetDegree_eq htwo]
    exact isLeast_wantedDegree_of_small hsmall

/-- In the greatest population of all every node draws 64 links, and in the greatest small one twenty. -/
theorem target_degree_is_least_greatest :
    targetDegree? (Width.words64 - 1) = some 64 ∧
    IsLeast {digits | Width.words64 - 1 ≤ 2 ^ digits} 64 ∧
    targetDegree? 64 = some 20 ∧ IsLeast {degree | 3 * 64 ≤ 10 * degree} 20 := by
  have hgreatest : targetDegree (Width.words64 - 1) = 64 := by decide +kernel
  have hsmall : targetDegree 64 = 20 := by decide +kernel
  have hlarge : Width.words64 - 1 < Width.words64 := by decide
  have hmedium : 64 < Width.words64 := by decide
  obtain ⟨hword, -, -, hdigits, -⟩ := target_degree_is_least hlarge
  obtain ⟨hword', -, -, -, htenths⟩ := target_degree_is_least hmedium
  have hdigits := hdigits (by decide)
  have htenths := htenths (by decide) (by decide)
  rw [hgreatest] at hword hdigits
  rw [hsmall] at hword' htenths
  exact ⟨hword, hdigits, hword', htenths⟩

end Topology

end Epidemic
