import Epidemic.Message

/-!
# Values that texts stand for

A double that is read from a text is a number. So in every value that a text stands for all doubles
are numbers, and such a value equals itself. In particular this holds for the payloads of messages
that are read.
-/

namespace Epidemic

namespace Binary64

/-- A rounded quotient is a number. -/
theorem isNaN_ofQuotient (negative : Bool) (numerator denominator : Nat) :
    (ofQuotient negative numerator denominator).isNaN = false := by
  rw [ofQuotient]
  split
  · rfl
  · exact decide_eq_false (Nat.not_lt.mpr (Nat.min_le_left _ _))

end Binary64

/-- Scaling a number by a power of ten results in a number. -/
theorem Decimal.Literal.isNaN_scale {steps : Nat} {x y : Binary64} {power : Int}
    (hx : x.isNaN = false) (h : scale steps x power = some y) : y.isNaN = false := by
  induction steps generalizing x power with
  | zero =>
    rw [scale] at h
    split at h
    · split at h
      · cases h
        exact hx
      · cases h
    · split at h
      · dsimp only at h
        split at h
        · cases h
          exact Binary64.isNaN_ofQuotient _ _ _
        · cases h
      · split at h
        · cases h
          exact Binary64.isNaN_ofQuotient _ _ _
        · cases h
          rfl
  | succ steps ih =>
    rw [scale] at h
    split at h
    · split at h
      · cases h
        exact hx
      · cases h
    · split at h
      · dsimp only at h
        split at h
        · cases h
          exact Binary64.isNaN_ofQuotient _ _ _
        · cases h
      · split at h
        · cases h
          exact Binary64.isNaN_ofQuotient _ _ _
        · split at h
          · cases h
            exact hx
          · exact ih (Binary64.isNaN_ofQuotient _ _ _) h

/-- A literal is read as a number. -/
theorem Decimal.Literal.isNaN_scaled {literal : Decimal.Literal} {x : Binary64}
    (h : literal.scaled = some x) : x.isNaN = false := by
  rw [scaled] at h
  dsimp only at h
  obtain ⟨y, hy, rfl⟩ := Option.map_eq_some_iff.mp h
  have hnan : y.isNaN = false := isNaN_scale (Binary64.isNaN_ofQuotient _ _ _) hy
  exact hnan

namespace Json.Value

mutual

/-- Whether everything in a value that is kept as a double is a number, as in every value that a
text stands for. -/
def isNumeric : Value → Bool
  | .float value => !value.isNaN
  | .array items => itemsNumeric items
  | .object members => membersNumeric members
  | _ => true

/-- The same for a list of values. -/
def itemsNumeric : List Value → Bool
  | [] => true
  | item :: rest => item.isNumeric && itemsNumeric rest

/-- The same for a list of named values. -/
def membersNumeric : List (String × Value) → Bool
  | [] => true
  | (_, item) :: rest => item.isNumeric && membersNumeric rest

end

/-- A named value of numeric members is numeric. -/
theorem isNumeric_of_mem {name : String} {value : Value} {members : List (String × Value)}
    (h : membersNumeric members = true) (hmem : (name, value) ∈ members) :
    value.isNumeric = true := by
  induction members with
  | nil => cases hmem
  | cons member rest ih =>
    obtain ⟨key, item⟩ := member
    rw [membersNumeric, Bool.and_eq_true] at h
    rcases List.mem_cons.mp hmem with heq | hrest
    · cases heq
      exact h.1
    · exact ih h.2 hrest

mutual

/-- A numeric value equals itself. -/
theorem equals_self : (value : Value) → value.isNumeric = true → value.equals value = true
  | .null, _ => rfl
  | .bool value, _ => by rw [equals, beq_self_eq_true]
  | .int value, _ => by rw [equals, beq_self_eq_true]
  | .float value, h => by
    rw [isNumeric] at h
    rw [equals, Binary64.equals, h]
    simp only [decide_true, Bool.true_or, Bool.and_true]
  | .string value, _ => by rw [equals, beq_self_eq_true]
  | .array items, h => by
    rw [isNumeric] at h
    rw [equals]
    exact itemsEqual_self items h
  | .object members, h => by
    rw [isNumeric] at h
    rw [equals]
    exact membersEqual_self members h

/-- Numeric values equal themselves, item by item. -/
theorem itemsEqual_self :
    (items : List Value) → itemsNumeric items = true → itemsEqual items items = true
  | [], _ => rfl
  | item :: rest, h => by
    rw [itemsNumeric, Bool.and_eq_true] at h
    rw [itemsEqual, equals_self item h.1, itemsEqual_self rest h.2]
    rfl

/-- Numeric members equal themselves, name by name. -/
theorem membersEqual_self :
    (members : List (String × Value)) → membersNumeric members = true →
      membersEqual members members = true
  | [], _ => rfl
  | (name, item) :: rest, h => by
    rw [membersNumeric, Bool.and_eq_true] at h
    rw [membersEqual, equals_self item h.1, membersEqual_self rest h.2, beq_self_eq_true]
    rfl

end

/-- Giving a name a numeric value keeps members numeric. -/
theorem membersNumeric_insert {name : String} {value : Value} {members : Members}
    (hvalue : value.isNumeric = true) (h : membersNumeric members = true) :
    membersNumeric (Members.insert name value members) = true := by
  induction members with
  | nil =>
    rw [Members.insert, membersNumeric, hvalue]
    rfl
  | cons member rest ih =>
    obtain ⟨key, item⟩ := member
    have hparts := h
    rw [membersNumeric, Bool.and_eq_true] at hparts
    rw [Members.insert]
    split
    · rw [membersNumeric, hvalue, h]
      rfl
    · split
      · rw [membersNumeric, hparts.1, ih hparts.2]
        rfl
      · rw [membersNumeric, hvalue, hparts.2]
        rfl

/-- Merging numeric members keeps members numeric. -/
theorem membersNumeric_merge {members updates : Members} (h : membersNumeric members = true)
    (hupdates : membersNumeric updates = true) :
    membersNumeric (Members.merge members updates) = true := by
  induction updates generalizing members with
  | nil => exact h
  | cons update rest ih =>
    obtain ⟨key, item⟩ := update
    rw [membersNumeric, Bool.and_eq_true] at hupdates
    exact ih (membersNumeric_insert hupdates.1 h) hupdates.2

/-- The value of a number is numeric. -/
theorem isNumeric_ofLiteral {literal : Decimal.Literal} {value : Value}
    (h : ofLiteral literal = .ok value) : value.isNumeric = true := by
  rw [ofLiteral] at h
  split at h
  · cases h
    rfl
  · split at h
    · cases h
      rfl
    · split at h
      · rename_i x hx
        cases h
        rw [isNumeric, Decimal.Literal.isNaN_scaled hx]
        rfl
      · cases h

mutual

/-- The value of a document is numeric. -/
theorem isNumeric_ofDocument : (room : Nat) → (document : Document) → (value : Value) →
    ofDocument room document = .ok value → value.isNumeric = true
  | room, .null, value, h => by
    rw [ofDocument] at h
    cases h
    rfl
  | room, .bool _, value, h => by
    rw [ofDocument] at h
    cases h
    rfl
  | room, .number literal, value, h => by
    rw [ofDocument] at h
    exact isNumeric_ofLiteral h
  | room, .string content, value, h => by
    rw [ofDocument] at h
    cases content with
    | none => cases h
    | some text =>
      cases h
      rfl
  | 0, .array items, value, h => by
    rw [ofDocument] at h
    cases h
  | room + 1, .array items, value, h => by
    rw [ofDocument] at h
    cases hitems : ofItems room items with
    | error fault =>
      rw [hitems] at h
      cases h
    | ok values =>
      rw [hitems] at h
      cases h
      rw [isNumeric]
      exact itemsNumeric_ofItems room items values hitems
  | 0, .object members, value, h => by
    rw [ofDocument] at h
    cases h
  | room + 1, .object members, value, h => by
    rw [ofDocument] at h
    cases hmembers : ofMembers room members with
    | error fault =>
      rw [hmembers] at h
      cases h
    | ok values =>
      rw [hmembers] at h
      cases h
      rw [isNumeric]
      exact membersNumeric_merge rfl (membersNumeric_ofMembers room members values hmembers)

/-- The values of the items of an array are numeric. -/
theorem itemsNumeric_ofItems : (room : Nat) → (items : List Document) → (values : List Value) →
    ofItems room items = .ok values → itemsNumeric values = true
  | room, [], values, h => by
    rw [ofItems] at h
    cases h
    rfl
  | room, item :: rest, values, h => by
    rw [ofItems] at h
    cases hitem : ofDocument room item with
    | error fault =>
      rw [hitem] at h
      cases h
    | ok value =>
      cases hrest : ofItems room rest with
      | error fault =>
        rw [hitem, hrest] at h
        cases h
      | ok others =>
        rw [hitem, hrest] at h
        cases h
        rw [itemsNumeric, isNumeric_ofDocument room item value hitem,
          itemsNumeric_ofItems room rest others hrest]
        rfl

/-- The named values of an object are numeric. -/
theorem membersNumeric_ofMembers : (room : Nat) → (members : List (Option String × Document)) →
    (values : List (String × Value)) → ofMembers room members = .ok values →
      membersNumeric values = true
  | room, [], values, h => by
    rw [ofMembers] at h
    cases h
    rfl
  | room, (key, item) :: rest, values, h => by
    rw [ofMembers] at h
    cases key with
    | none => cases h
    | some name =>
      cases hitem : ofDocument room item with
      | error fault =>
        rw [hitem] at h
        cases h
      | ok value =>
        cases hrest : ofMembers room rest with
        | error fault =>
          rw [hitem, hrest] at h
          cases h
        | ok others =>
          rw [hitem, hrest] at h
          cases h
          rw [membersNumeric, isNumeric_ofDocument room item value hitem,
            membersNumeric_ofMembers room rest others hrest]
          rfl

end

end Json.Value

namespace Json.Record

/-- A field that has to be given is read from what is given for it. -/
theorem exists_of_required_eq_ok {α : Type} {fields : Fields} {name : String}
    {read : Document → Except Fault α} {value : α} (h : required fields name read = .ok value) :
    ∃ item, read item = .ok value := by
  rw [required] at h
  split at h
  · rename_i item _
    exact ⟨item, h⟩
  · cases h

/-- The members of an object that is read are numeric. -/
theorem membersNumeric_members {room : Nat} {item : Document} {found : Members}
    (h : members room item = .ok found) : Value.membersNumeric found = true := by
  unfold members at h
  split at h
  · rename_i entries
    cases hvalue : Value.ofDocument room (.object entries) with
    | error fault =>
      rw [hvalue] at h
      cases h
    | ok value =>
      have hnumeric := Value.isNumeric_ofDocument room _ value hvalue
      rw [hvalue] at h
      cases value with
      | object members =>
        cases h
        rw [Value.isNumeric] at hnumeric
        exact hnumeric
      | null | bool | int | float | string | array => cases h
  · cases h
  · cases hscalar : scalar item with
    | error fault =>
      rw [hscalar] at h
      cases h
    | ok value =>
      rw [hscalar] at h
      cases h

end Json.Record

/-- A message that is read from a text has a numeric payload. -/
theorem Message.membersNumeric_payload {text : String} {message : Message}
    (h : Message.read text = .ok message) :
    Json.Value.membersNumeric message.payload = true := by
  rw [Message.read, Json.Record.ofText] at h
  split at h
  · cases h
  · simp only [Message.ofDocument, bind, Except.bind] at h
    iterate 4
      split at h
      · cases h
    split at h
    · cases h
    · rename_i payload hpayload
      obtain ⟨item, hitem⟩ := Json.Record.exists_of_required_eq_ok hpayload
      split at h
      · cases h
      · cases h
        exact Json.Record.membersNumeric_members hitem

end Epidemic
