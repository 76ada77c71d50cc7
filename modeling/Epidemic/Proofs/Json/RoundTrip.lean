import Epidemic.Json.Record
import Epidemic.Proofs.Json.Ascending
import Epidemic.Proofs.Json.Text

/-!
# Values that are read back

A value without doubles is read back from its document, and so from its text, if it is not nested
too deeply and if the names in all objects ascend, as they do wherever objects are kept. In particular
the fields of records are read back.
-/

namespace Epidemic.Json

namespace Members

/-- A name above all others is inserted behind them. -/
theorem insert_of_above {name : String} {value : Value} {members : Members}
    (h : ∀ entry ∈ members, entry.1 < name) :
    insert name value members = members ++ [(name, value)] := by
  induction members with
  | nil => rfl
  | cons first rest ih =>
    obtain ⟨key, old⟩ := first
    have hfirst : key < name := h (key, old) List.mem_cons_self
    rw [insert, if_neg (not_lt_of_gt hfirst), if_pos hfirst, List.cons_append,
      ih fun entry hmem => h entry (List.mem_cons_of_mem _ hmem)]

/-- Merging appends names that ascend and are above all others. -/
theorem Ascending.merge_eq_append {members updates : Members} (h : Ascending (members ++ updates)) :
    Members.merge members updates = members ++ updates := by
  induction updates generalizing members with
  | nil => exact (List.append_nil members).symm
  | cons update rest ih =>
    have habove : ∀ entry ∈ members, entry.1 < update.1 := fun entry hmem =>
      (List.pairwise_append.mp h).2.2 entry hmem update List.mem_cons_self
    rw [List.append_cons] at h ⊢
    rw [← ih h, ← insert_of_above habove]
    rfl

/-- Members whose names ascend are the merge of themselves. -/
theorem Ascending.merge_nil {members : Members} (h : Ascending members) :
    Members.merge [] members = members :=
  Ascending.merge_eq_append ((List.nil_append members).symm ▸ h)

end Members

namespace Value

mutual

/-- Whether the names ascend in every object of a value. -/
def IsOrdered : Value → Prop
  | .array items => ItemsOrdered items
  | .object members => Members.Ascending members ∧ MembersOrdered members
  | _ => True

/-- The same for a list of values. -/
def ItemsOrdered : List Value → Prop
  | [] => True
  | item :: rest => item.IsOrdered ∧ ItemsOrdered rest

/-- The same for a list of named values. -/
def MembersOrdered : List (String × Value) → Prop
  | [] => True
  | (_, item) :: rest => item.IsOrdered ∧ MembersOrdered rest

end

mutual

/-- How many arrays and objects stand in each other at most. -/
def depth : Value → Nat
  | .array items => itemsDepth items + 1
  | .object members => membersDepth members + 1
  | _ => 0

/-- The greatest depth in a list of values. -/
def itemsDepth : List Value → Nat
  | [] => 0
  | item :: rest => max item.depth (itemsDepth rest)

/-- The greatest depth in a list of named values. -/
def membersDepth : List (String × Value) → Nat
  | [] => 0
  | (_, item) :: rest => max item.depth (membersDepth rest)

end

/-- An integer of 64 bits is read back from its literal. -/
theorem ofLiteral_literalOf {n : Int} (hlow : -(Width.words64 : Int) ≤ 2 * n)
    (hhigh : n < Width.words64) : ofLiteral (literalOf n) = .ok (.int n) := by
  have hsize : (literalOf n).natAbs = n.natAbs := Decimal.ofDigits_digitsOf _
  have hinteger : (literalOf n).isInteger = true := rfl
  have hsign : (literalOf n).negative = decide (n < 0) := rfl
  rw [ofLiteral, hsize, hinteger, hsign]
  by_cases hneg : n < 0
  · rw [decide_eq_true hneg, if_neg (by simp), if_pos (by simp; omega)]
    congr 2
    omega
  · rw [decide_eq_false hneg, if_pos (by simp; omega)]
    congr 2
    omega

mutual

/-- A value is read back from its document. -/
theorem ofDocument_document : (value : Value) → value.isExact = true → value.IsOrdered →
    (room : Nat) → value.depth ≤ room → ofDocument room value.document = .ok value
  | .null, _, _, _, _ => by rw [document, ofDocument]
  | .bool _, _, _, _, _ => by rw [document, ofDocument]
  | .int n, hexact, _, _, _ => by
    rw [isExact, decide_eq_true_eq] at hexact
    rw [document, ofDocument, ofLiteral_literalOf hexact.1 hexact.2]
  | .float _, hexact, _, _, _ => by
    rw [isExact] at hexact
    cases hexact
  | .string text, _, _, _, _ => by
    rw [document, ofDocument]
    rfl
  | .array items, hexact, hordered, room, hdepth => by
    rw [isExact] at hexact
    rw [IsOrdered] at hordered
    rw [depth] at hdepth
    cases room with
    | zero => omega
    | succ room =>
      rw [document, ofDocument,
        ofItems_itemDocuments items hexact hordered room (Nat.le_of_succ_le_succ hdepth)]
      rfl
  | .object members, hexact, hordered, room, hdepth => by
    rw [isExact] at hexact
    rw [IsOrdered] at hordered
    rw [depth] at hdepth
    obtain ⟨hascending, hordered⟩ := hordered
    cases room with
    | zero => omega
    | succ room =>
      have hmerge : Members.merge [] members = members := hascending.merge_nil
      rw [document, ofDocument,
        ofMembers_memberDocuments members hexact hordered room (Nat.le_of_succ_le_succ hdepth)]
      exact congrArg (Except.ok ∘ Value.object) hmerge

/-- The items of an array are read back from their documents. -/
theorem ofItems_itemDocuments : (items : List Value) → itemsExact items = true →
    ItemsOrdered items → (room : Nat) → itemsDepth items ≤ room →
      ofItems room (itemDocuments items) = .ok items
  | [], _, _, _, _ => by rw [itemDocuments, ofItems]
  | item :: rest, hexact, hordered, room, hdepth => by
    rw [itemsExact, Bool.and_eq_true] at hexact
    rw [ItemsOrdered] at hordered
    rw [itemsDepth] at hdepth
    have hitem := ofDocument_document item hexact.1 hordered.1 room
      (Nat.le_trans (Nat.le_max_left _ _) hdepth)
    have hrest := ofItems_itemDocuments rest hexact.2 hordered.2 room
      (Nat.le_trans (Nat.le_max_right _ _) hdepth)
    rw [itemDocuments, ofItems, hitem, hrest]
    rfl

/-- The members of an object are read back from their documents. -/
theorem ofMembers_memberDocuments : (members : List (String × Value)) →
    membersExact members = true → MembersOrdered members → (room : Nat) →
      membersDepth members ≤ room → ofMembers room (memberDocuments members) = .ok members
  | [], _, _, _, _ => by rw [memberDocuments, ofMembers]
  | (name, item) :: rest, hexact, hordered, room, hdepth => by
    rw [membersExact, Bool.and_eq_true] at hexact
    rw [MembersOrdered] at hordered
    rw [membersDepth] at hdepth
    have hitem := ofDocument_document item hexact.1 hordered.1 room
      (Nat.le_trans (Nat.le_max_left _ _) hdepth)
    have hrest := ofMembers_memberDocuments rest hexact.2 hordered.2 room
      (Nat.le_trans (Nat.le_max_right _ _) hdepth)
    rw [memberDocuments, ofMembers, hitem, hrest]
    rfl

end

end Value

namespace Record

/-- A string is read back. -/
theorem string_document (text : String) : string (Value.string text).document = .ok text := by
  rw [Value.document]
  rfl

/-- A natural number below a limit is taken as it is. -/
theorem natural_of_scalar {n limit : Nat} {item : Document} (hscalar : scalar item = .ok (.int n))
    (h : n < limit) : natural limit item = .ok n := by
  have hrange : 0 ≤ (n : Int) ∧ (n : Int) < limit := by omega
  rw [natural, hscalar]
  exact if_pos hrange

/-- A natural number of 64 bits is read back. -/
theorem word_document {n : Nat} (h : n < Width.words64) :
    word (Value.int n).document = .ok n := by
  have hvalue : Value.ofLiteral (literalOf n) = .ok (.int n) :=
    Value.ofLiteral_literalOf (by omega) (by omega)
  have hscalar : scalar (.number (literalOf n)) = .ok (.int n) := by
    rw [scalar, Value.ofDocument, hvalue]
    all_goals nofun
  rw [Value.document, word]
  exact natural_of_scalar hscalar h

/-- The members of an object are read back. -/
theorem members_document {found : Members} {room : Nat}
    (hexact : (Value.object found).isExact = true) (hordered : (Value.object found).IsOrdered)
    (hdepth : (Value.object found).depth ≤ room) :
    members room (Value.object found).document = .ok found := by
  have hvalue := Value.ofDocument_document (.object found) hexact hordered room hdepth
  rw [Value.document] at hvalue ⊢
  rw [members, hvalue]
  rfl

end Record

end Epidemic.Json
