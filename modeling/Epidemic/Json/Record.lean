import Epidemic.Json.Value

/-!
# Reading records

A record is written as an object with one member per field, or as an array of the fields in their
order. Members that name no field are passed over unread, unless the record allows no others; a
field that is given twice or that is missing is a mismatch, and so is a value of the wrong shape.
An array has to list all fields, even those that an object may leave out, unless the record allows
fewer.
-/

namespace Epidemic.Json.Record

/-- The fields that a document gives, by name. -/
abbrev Fields := List (String × Document)

/-- How a record may be written. -/
structure Form where
  /-- The names of its fields, in their order. -/
  names : List String
  /-- Whether an object may have members that name no field. -/
  allowsOthers : Bool := true
  /-- Whether an array may leave out the last fields. -/
  allowsFewer : Bool := false

/-- The members of an object that give fields. -/
def ofMembers (names : List String) (allowsOthers : Bool) :
    List (Option String × Document) → Except Fault Fields
  | [] => .ok []
  | (key, item) :: rest => do
    let name ← Value.ofContent key
    let found ← ofMembers names allowsOthers rest
    if names.contains name then
      if (found.lookup name).isSome then .error .mismatch else .ok ((name, item) :: found)
    else if allowsOthers then .ok found
    else .error .mismatch

/-- A value that is neither array nor object. -/
def scalar : Document → Except Fault Value
  | .array _ => .error .mismatch
  | .object _ => .error .mismatch
  | item => Value.ofDocument 0 item

/-- The fields of a record. An array must not list more items than the record has fields. -/
def ofDocument (form : Form) : Document → Except Fault Fields
  | .object members => ofMembers form.names form.allowsOthers members
  | .array items =>
    if form.names.length < items.length then .error .malformed
    else if items.length < form.names.length && !form.allowsFewer then .error .mismatch
    else .ok (form.names.zip items)
  | item => do
    let _ ← scalar item
    .error .mismatch

/-- A field that has to be given. -/
def required {α : Type} (fields : Fields) (name : String) (read : Document → Except Fault α) :
    Except Fault α :=
  match fields.lookup name with
  | some item => read item
  | none => .error .mismatch

/-- A field with a value to be used when it is not given. -/
def defaulted {α : Type} (fields : Fields) (name : String) (default : α)
    (read : Document → Except Fault α) : Except Fault α :=
  match fields.lookup name with
  | some item => read item
  | none => .ok default

/-- A natural number below a limit. -/
def natural (limit : Nat) (item : Document) : Except Fault Nat := do
  match ← scalar item with
  | .int n => if 0 ≤ n ∧ n < limit then .ok n.toNat else .error .mismatch
  | _ => .error .mismatch

/-- A natural number of 64 bits. -/
def word (item : Document) : Except Fault Nat := natural Width.words64 item

/-- A double; integers are rounded to the nearest one. -/
def float (item : Document) : Except Fault Binary64 := do
  match ← scalar item with
  | .int n => .ok (.ofInt n)
  | .float x => .ok x
  | _ => .error .mismatch

/-- A string. -/
def string (item : Document) : Except Fault String := do
  match ← scalar item with
  | .string text => .ok text
  | _ => .error .mismatch

/-- A value that may be null. -/
def nullable {α : Type} (read : Document → Except Fault α) : Document → Except Fault (Option α)
  | .null => .ok none
  | item => some <$> read item

/-- The members of an object in which at most `room` arrays and objects stand in each other. -/
def members (room : Nat) (item : Document) : Except Fault Members :=
  match item with
  | .object _ => do
    match ← Value.ofDocument room item with
    | .object members => .ok members
    | _ => .error .mismatch
  | .array _ => .error .mismatch
  | item => do
    let _ ← scalar item
    .error .mismatch

/-- Reads a text as a record. -/
def ofText {α : Type} (read : Document → Except Fault α) (text : String) : Except Fault α :=
  match Document.ofText text.toList with
  | none => .error .malformed
  | some document => read document

end Epidemic.Json.Record
