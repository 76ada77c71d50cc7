import Epidemic.Json.Record
import Epidemic.Json.Writer
import Epidemic.Identifier

/-!
# Messages

A message carries an update of named values. It keeps its id on every hop, and the id alone
decides whether a node has seen it.
-/

namespace Epidemic

/-- The values that a message sets, in ascending order of their keys. -/
abbrev Payload := Json.Members

/-- A message of one broadcast. -/
structure Message where
  /-- The id given to the broadcast. -/
  id : MessageId
  /-- A label chosen by the sender. -/
  kind : String
  /-- The node that made the broadcast. -/
  origin : NodeId
  /-- The values it sets. -/
  payload : Payload
  /-- When it was made, in milliseconds of the wall clock. -/
  timestamp : Nat

namespace Message

/-- How old a message is at a reading of the wall clock, in milliseconds. A message from the future
has no age yet. -/
def age (message : Message) (now : Nat) : Nat := now - message.timestamp

/-- Whether two messages belong to one broadcast. -/
def isSame (a b : Message) : Bool := a.id == b.id

/-- Whether two messages are equal in every field. -/
def equals (a b : Message) : Bool :=
  a.id == b.id && a.kind == b.kind && a.origin == b.origin && a.timestamp == b.timestamp &&
    (Json.Value.object a.payload).equals (.object b.payload)

/-- The names of the fields, in their order. -/
def fieldNames : List String := ["id", "msg_type", "from", "payload", "timestamp"]

/-- The message as a record. -/
def toJson (message : Message) : Json.Value :=
  .object [("id", .string message.id), ("msg_type", .string message.kind),
    ("from", .string message.origin), ("payload", .object message.payload),
    ("timestamp", .int message.timestamp)]

/-- The written form of a message. -/
def write (message : Message) : String := message.toJson.compact

/-- Reads a record as a message. The record is itself one of the nested objects. -/
def ofDocument (document : Json.Document) : Except Json.Fault Message := do
  let fields ← Json.Record.ofDocument { names := fieldNames } document
  let id ← Json.Record.required fields "id" Json.Record.string
  let kind ← Json.Record.required fields "msg_type" Json.Record.string
  let origin ← Json.Record.required fields "from" Json.Record.string
  let payload ← Json.Record.required fields "payload" (Json.Record.members (Json.Value.maxDepth - 1))
  let timestamp ← Json.Record.required fields "timestamp" Json.Record.word
  return { id, kind, origin, payload, timestamp }

/-- Reads the written form of a message. -/
def read (text : String) : Except Json.Fault Message := Json.Record.ofText ofDocument text

end Message

end Epidemic
