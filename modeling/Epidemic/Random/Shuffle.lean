import Epidemic.Random.Source

/-!
# Shuffling a list

From the last position down to the second, each position is exchanged with one picked among
itself and the positions before it. Whatever is picked, the result lists the same items.
-/

namespace Epidemic.Random

variable {σ α : Type} [Chooser σ]

/-- Settles the positions `top`, `top - 1`, …, `1` of the items, in this order. -/
def settleDown {n : Nat} : (top : Nat) → top < n → Vector α n → σ → Vector α n × σ
  | 0, _, items, state => (items, state)
  | top + 1, h, items, state =>
    let (choice, after) := Chooser.pick (top + 1) state
    settleDown top (Nat.lt_of_succ_lt h)
      (items.swap (top + 1) choice h (Nat.lt_of_lt_of_le choice.isLt h)) after

/-- A random rearrangement of a list, and the state of the chooser after it. -/
def shuffle (items : List α) (state : σ) : List α × σ :=
  if h : items.length - 1 < items.length then
    let (settled, after) := settleDown (items.length - 1) h ⟨items.toArray, List.size_toArray⟩ state
    (settled.toList, after)
  else (items, state)

/-- Settling positions keeps the items. -/
theorem perm_settleDown {n : Nat} (top : Nat) (h : top < n) (items : Vector α n) (state : σ) :
    (settleDown top h items state).1.toList.Perm items.toList := by
  induction top generalizing items state with
  | zero => exact List.Perm.refl _
  | succ top ih =>
    rw [settleDown]
    refine (ih _ _ _).trans ?_
    exact (Vector.swap_perm _ _).toList

/-- A shuffled list holds the items of the list, each as often as before. -/
theorem perm_shuffle (items : List α) (state : σ) : (shuffle items state).1.Perm items := by
  rw [shuffle]
  split
  · exact (perm_settleDown _ _ _ _).trans (by simp)
  · exact List.Perm.refl _

end Epidemic.Random
