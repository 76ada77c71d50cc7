import Epidemic.Width

/-!
# Sources of random words and choices made from them

A `Source` hands out 64-bit words; a `Chooser` picks an index from `0` to a given top. Whatever
draws peers, links or delays is written over these two classes, so that it can be run on a stream
cipher and reasoned about for every possible sequence of draws.

Every source is a chooser: a word is scaled to the number of choices by a multiplication, and is
drawn anew when it falls into the incomplete last stretch of the 64-bit range, which makes all
choices equally likely.
-/

namespace Epidemic.Random

/-- A state from which 64-bit words are drawn, one after the other. -/
class Source (σ : Type) where
  /-- One word, and the state that draws the words after it. -/
  next : σ → UInt64 × σ

/-- A state from which indexes are picked. -/
class Chooser (σ : Type) where
  /-- An index from `0` to `top`, both ends included, and the state after the choice. -/
  pick : (top : Nat) → σ → Fin (top + 1) × σ

/-- The greatest low half that a scaled word may have: the number of choices shifted to the top of
the word, less one. -/
def zone (choices : Nat) : Nat :=
  choices <<< (63 - choices.log2) - 1

/-- The high half of a word multiplied by the number of choices. -/
def scaled (word : UInt64) (choices : Nat) : Nat :=
  word.toNat * choices / Width.words64

/-- A scaled word is below the number of choices. -/
theorem scaled_lt (word : UInt64) (top : Nat) : scaled word (top + 1) < top + 1 := by
  exact Nat.div_lt_of_lt_mul (Nat.mul_lt_mul_of_pos_right (Width.toNat_lt word) (Nat.succ_pos top))

/-- Whether a word lies in a stretch that all choices share equally. -/
def isFair (word : UInt64) (choices : Nat) : Bool :=
  word.toNat * choices % Width.words64 ≤ zone choices

/-- Draws until a word is fair and scales it. After `redraws` refusals the next word is taken as
it comes; more than half of all words are fair. -/
def pickFair {σ : Type} [Source σ] (top : Nat) : (redraws : Nat) → σ → Fin (top + 1) × σ
  | 0, state =>
    let (word, after) := Source.next state
    (⟨scaled word (top + 1), scaled_lt word top⟩, after)
  | redraws + 1, state =>
    let (word, after) := Source.next state
    if isFair word (top + 1) then (⟨scaled word (top + 1), scaled_lt word top⟩, after)
    else pickFair top redraws after

/-- How many unfair words are passed over for one choice. -/
def maxRedraws : Nat := Width.words32

/-- Any source chooses by scaling fair words. With `2 ^ 64` choices or more a word is the choice. -/
instance {σ : Type} [Source σ] : Chooser σ where
  pick top state :=
    if h : top + 1 < Width.words64 then pickFair top maxRedraws state
    else
      let (word, after) := Source.next state
      (⟨word.toNat, Nat.lt_of_lt_of_le (Width.toNat_lt word) (Nat.le_of_not_lt h)⟩, after)

/-- A choice from a least to a greatest number, both ends included, if there is anything to choose
from. -/
def pickBetween? [Chooser σ] (least greatest : Nat) (state : σ) : Option (Nat × σ) :=
  if least ≤ greatest then
    let (choice, after) := Chooser.pick (greatest - least) state
    some (least + choice, after)
  else none

end Epidemic.Random
