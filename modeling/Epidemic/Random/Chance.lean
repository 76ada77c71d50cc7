import Epidemic.Binary64
import Epidemic.Random.Source

/-!
# Events of a given probability

An event of probability `p` happens when a 64-bit word is below `p` times `2 ^ 64`. A sure event
takes no word. No event has a probability that is not a number from zero to one.
-/

namespace Epidemic.Random

/-- Whether an event of the given probability happens. -/
def chance {σ : Type} [Source σ] (probability : Binary64) (state : σ) : Bool × σ :=
  if probability = Binary64.one then (true, state)
  else
    let (word, after) := Source.next state
    (word.toNat < probability.scaledFloor 64, after)

/-- Whether an event happens, unless what is given is no probability. -/
def chance? {σ : Type} [Source σ] (probability : Binary64) (state : σ) : Option (Bool × σ) :=
  if probability.isProbability then some (chance probability state) else none

end Epidemic.Random
