import Epidemic.Json.Value

/-!
# Values by name

After a merge a name has the last value that was given to it; names that were given none keep the
value that they had.
-/

namespace Epidemic.Json.Members

/-- The last value that a list of updates gives to a name. -/
def last? (name : String) : List (String × Value) → Option Value
  | [] => none
  | (key, value) :: rest => (last? name rest).or (if key = name then some value else none)

/-- The updates of two lists, the second one after the first one. -/
theorem last?_append (name : String) (earlier later : List (String × Value)) :
    last? name (earlier ++ later) = (last? name later).or (last? name earlier) := by
  induction earlier with
  | nil => exact (Option.or_none).symm
  | cons update rest ih =>
    obtain ⟨key, value⟩ := update
    rw [List.cons_append, last?, last?, ih, Option.or_assoc]

/-- A name has a last value if it is given one at all. -/
theorem last?_isSome_iff {name : String} {updates : List (String × Value)} :
    (last? name updates).isSome = true ↔ ∃ value, (name, value) ∈ updates := by
  induction updates with
  | nil => exact ⟨fun h => Bool.noConfusion h, fun ⟨_, h⟩ => absurd h List.not_mem_nil⟩
  | cons update rest ih =>
    obtain ⟨key, value⟩ := update
    rw [last?, Option.isSome_or, Bool.or_eq_true, ih]
    constructor
    · rintro (⟨other, hmem⟩ | hkey)
      · exact ⟨other, List.mem_cons_of_mem _ hmem⟩
      · split at hkey
        · rename_i heq
          exact ⟨value, by rw [heq]; exact List.mem_cons_self⟩
        · cases hkey
    · rintro ⟨other, hmem⟩
      rcases List.mem_cons.mp hmem with heq | hmem
      · right
        rw [if_pos (congrArg Prod.fst heq).symm]
        rfl
      · exact Or.inl ⟨other, hmem⟩

/-- The last value of a name is one that it is given. -/
theorem mem_of_last?_eq_some {name : String} {value : Value} {updates : List (String × Value)}
    (h : last? name updates = some value) : (name, value) ∈ updates := by
  induction updates with
  | nil => cases h
  | cons update rest ih =>
    obtain ⟨key, other⟩ := update
    rw [last?, Option.or_eq_some_iff] at h
    rcases h with hrest | ⟨-, hhead⟩
    · exact List.mem_cons_of_mem _ (ih hrest)
    · split at hhead
      · rename_i heq
        cases hhead
        rw [heq]
        exact List.mem_cons_self
      · cases hhead

/-- A name has the value that it is given. -/
theorem get?_insert_self (name : String) (value : Value) (members : Members) :
    get? name (insert name value members) = some value := by
  induction members with
  | nil => exact if_pos rfl
  | cons entry rest ih =>
    obtain ⟨key, old⟩ := entry
    rw [insert]
    split
    · exact if_pos rfl
    · split
      · rename_i hlt
        have hne : key ≠ name := fun heq => String.lt_irrefl name (heq ▸ hlt)
        rw [get?, if_neg hne]
        exact ih
      · exact if_pos rfl

/-- Other names keep their values. -/
theorem get?_insert_of_ne {name other : String} (h : name ≠ other) (value : Value)
    (members : Members) : get? other (insert name value members) = get? other members := by
  induction members with
  | nil => exact if_neg h
  | cons entry rest ih =>
    obtain ⟨key, old⟩ := entry
    rw [insert]
    split
    · rw [get?, if_neg h]
    · split
      · rw [get?, get?, ih]
      · rename_i hnot hnot'
        have heq : name = key :=
          Std.Trichotomous.trichotomous (r := (· < · : String → String → Prop)) name key hnot hnot'
        rw [get?, get?, if_neg h, if_neg (heq ▸ h)]

/-- After a merge a name has the last value it was given, or else the one it had. -/
theorem get?_merge (name : String) (members : Members) (updates : List (String × Value)) :
    get? name (merge members updates) = (last? name updates).or (get? name members) := by
  induction updates generalizing members with
  | nil => rfl
  | cons update rest ih =>
    obtain ⟨key, value⟩ := update
    have hmerge : merge members ((key, value) :: rest) =
        merge (insert key value members) rest := rfl
    rw [hmerge, ih, last?, Option.or_assoc]
    split
    · rename_i heq
      rw [heq, get?_insert_self, Option.some_or]
    · rename_i hne
      rw [get?_insert_of_ne hne, Option.none_or]

end Epidemic.Json.Members
