import Epidemic.Ordered

/-!
# Links

An undirected link between two nodes, which are numbered. Links are ordered by their lower end
first.
-/

namespace Epidemic

/-- A link between two nodes, the one with the lower number first. -/
structure Link where
  /-- The lower end. -/
  low : Nat
  /-- The higher end. -/
  high : Nat
  deriving DecidableEq

namespace Link

/-- The order of links. -/
instance : LT Link where
  lt a b := a.low < b.low ∨ a.low = b.low ∧ a.high < b.high

instance : DecidableLT Link := fun a b =>
  inferInstanceAs (Decidable (a.low < b.low ∨ a.low = b.low ∧ a.high < b.high))

/-- The link between two nodes. -/
def between (a b : Nat) : Link := if a < b then ⟨a, b⟩ else ⟨b, a⟩

end Link

end Epidemic
