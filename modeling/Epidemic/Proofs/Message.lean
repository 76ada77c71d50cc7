import Epidemic.Message
import Epidemic.Proofs.Json.RoundTrip

/-!
# Messages that are read back

A message is read back from its written form with all its fields. Its payload may hold any values
but doubles; with the object of the message around it, it must not be nested too deeply.
-/

namespace Epidemic

namespace Message

open Json (Value)

variable {message : Message}

/-- The documents of the fields of a message. -/
def fields (message : Message) : Json.Record.Fields :=
  [("id", (Value.string message.id).document),
    ("msg_type", (Value.string message.kind).document),
    ("from", (Value.string message.origin).document),
    ("payload", (Value.object message.payload).document),
    ("timestamp", (Value.int message.timestamp).document)]

/-- The fields of a message are found in its document. -/
theorem fields_document (message : Message) :
    Json.Record.ofDocument { names := fieldNames } message.toJson.document =
      .ok message.fields := by
  simp only [toJson, Value.document, Value.memberDocuments]
  rfl

/-- A message is read back from its document. -/
theorem ofDocument_document (hexact : (Value.object message.payload).isExact = true)
    (hordered : (Value.object message.payload).IsOrdered)
    (htimestamp : message.timestamp < Width.words64)
    (hdepth : message.toJson.depth ≤ Value.maxDepth) :
    ofDocument message.toJson.document = .ok message := by
  have hinner : (Value.object message.payload).depth ≤ Value.maxDepth - 1 := by
    simp only [toJson, Value.depth, Value.membersDepth] at hdepth ⊢
    omega
  have hid : Json.Record.required message.fields "id" Json.Record.string = .ok message.id :=
    Json.Record.string_document message.id
  have hkind : Json.Record.required message.fields "msg_type" Json.Record.string =
      .ok message.kind :=
    Json.Record.string_document message.kind
  have horigin : Json.Record.required message.fields "from" Json.Record.string =
      .ok message.origin :=
    Json.Record.string_document message.origin
  have hpayload : Json.Record.required message.fields "payload"
      (Json.Record.members (Value.maxDepth - 1)) = .ok message.payload :=
    Json.Record.members_document hexact hordered hinner
  have hstamp : Json.Record.required message.fields "timestamp" Json.Record.word =
      .ok message.timestamp :=
    Json.Record.word_document htimestamp
  rw [ofDocument, fields_document]
  simp only [bind, Except.bind, hid, hkind, horigin, hpayload, hstamp]
  rfl

/-- A message whose payload holds no doubles is read back from its written form, all fields
included. -/
theorem read_write (message : Message)
    (hexact : (Value.object message.payload).isExact = true)
    (hordered : (Value.object message.payload).IsOrdered)
    (htimestamp : message.timestamp < Width.words64)
    (hdepth : message.toJson.depth ≤ Value.maxDepth) :
    read message.write = .ok message := by
  have hwritten : message.toJson.isExact = true := by
    have hword : -(Width.words64 : Int) ≤ 2 * message.timestamp ∧
        (message.timestamp : Int) < Width.words64 := by omega
    simp only [toJson, Value.isExact, Value.membersExact] at hexact ⊢
    simp only [hexact, decide_eq_true hword, Bool.and_true]
  rw [read, Json.Record.ofText, write, Value.compact, String.toList_ofList,
    Json.Document.ofText_compactChars hwritten]
  exact ofDocument_document hexact hordered htimestamp hdepth

/-- A message with nested values, characters that have to be escaped and the extreme integers. -/
def envelope : Message where
  id := "7e57\x01ed"
  kind := "say \"hi\"\n"
  origin := "node-ñ🦀"
  payload := [("", .array []), ("C:\\", .array [.int (-0x8000000000000000), .null, .object []]),
    ("a", .object [("x", .bool true), ("y", .string "\t/")]), ("b", .int 0xFFFFFFFFFFFFFFFF)]
  timestamp := 0xFFFFFFFFFFFFFFFF

/-- Such a message is read back. -/
theorem read_write_envelope :
    (Value.object envelope.payload).isExact = true ∧ (Value.object envelope.payload).IsOrdered ∧
    envelope.timestamp < Width.words64 ∧ envelope.toJson.depth = 4 ∧
    read envelope.write = .ok envelope := by
  have hexact : (Value.object envelope.payload).isExact = true := by decide
  have hordered : (Value.object envelope.payload).IsOrdered := by
    simp only [envelope, Value.IsOrdered, Value.ItemsOrdered, Value.MembersOrdered,
      Json.Members.Ascending, and_true, true_and]
    decide
  have htimestamp : envelope.timestamp < Width.words64 := by decide
  have hdepth : envelope.toJson.depth = 4 := by decide
  have hroom : envelope.toJson.depth ≤ Value.maxDepth := by
    rw [hdepth]
    decide
  exact ⟨hexact, hordered, htimestamp, hdepth,
    read_write envelope hexact hordered htimestamp hroom⟩

end Message

end Epidemic
