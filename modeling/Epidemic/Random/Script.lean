import Epidemic.Random.Source

/-!
# Prescribed draws

A script is a source whose words are written down beforehand; after the last of them it draws
zeros for ever. It shows what a computation does for one chosen sequence of draws.
-/

namespace Epidemic.Random

/-- A list of words to be drawn in order, followed by endless zeros. -/
structure Script where
  /-- The words not yet drawn. -/
  words : List UInt64

/-- The first word left, or zero. -/
def Script.next (script : Script) : UInt64 × Script :=
  match script.words with
  | [] => (0, script)
  | word :: rest => (word, ⟨rest⟩)

instance : Source Script where
  next := Script.next

end Epidemic.Random
