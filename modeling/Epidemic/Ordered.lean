/-!
# Ascending lists as finite sets

A finite set of ids or links is kept as the list of its elements in strictly ascending order, so
that two lists with the same elements become the same list. `insert` adds one element at its
place; `ofList` builds the set of a list, whatever its order and repetitions. Another way to the same
set is to sort the list first and then to leave out what is repeated.
-/

namespace Epidemic.Ordered

variable {α : Type} [LT α] [DecidableLT α]

/-- Adds an element at its place. An element that is neither below nor above one already listed
is that element, and the list stays as it is. -/
def insert (a : α) : List α → List α
  | [] => [a]
  | b :: rest =>
    if a < b then a :: b :: rest
    else if b < a then b :: insert a rest
    else b :: rest

/-- The distinct elements of a list, in ascending order. -/
def ofList (elements : List α) : List α :=
  elements.foldr insert []

/-- Adds an element before the first one that is not below it. -/
def place (a : α) : List α → List α
  | [] => [a]
  | b :: rest => if b < a then b :: place a rest else a :: b :: rest

/-- The elements of a list in ascending order, each of them as often as it is listed. -/
def sort (elements : List α) : List α :=
  elements.foldr place []

/-- Leaves out every element that stands right before an equal one. -/
def dedup [DecidableEq α] : List α → List α
  | [] => []
  | [a] => [a]
  | a :: b :: rest => if a = b then dedup (b :: rest) else a :: dedup (b :: rest)

/-- An element is present after its insertion, and so is everything that was present before. -/
theorem mem_insert_of_mem {a x : α} {elements : List α} (h : x ∈ elements) :
    x ∈ insert a elements := by
  induction elements with
  | nil => cases h
  | cons b rest ih =>
    rw [insert]
    split
    · exact List.mem_cons_of_mem a h
    · split
      · rcases List.mem_cons.mp h with rfl | h
        · exact List.mem_cons_self
        · exact List.mem_cons_of_mem b (ih h)
      · exact h

/-- Insertion brings in nothing but the inserted element. -/
theorem mem_of_mem_insert {a x : α} {elements : List α} (h : x ∈ insert a elements) :
    x = a ∨ x ∈ elements := by
  induction elements with
  | nil => exact Or.inl (List.mem_singleton.mp h)
  | cons b rest ih =>
    rw [insert] at h
    split at h
    · exact List.mem_cons.mp h
    · split at h
      · rcases List.mem_cons.mp h with rfl | h
        · exact Or.inr List.mem_cons_self
        · exact (ih h).imp_right (List.mem_cons_of_mem b)
      · exact Or.inr h

end Epidemic.Ordered
