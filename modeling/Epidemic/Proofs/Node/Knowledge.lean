import Epidemic.Proofs.Json.Ascending
import Epidemic.Proofs.Node.Budget
import Epidemic.Proofs.Node.Memory
import Mathlib.Data.List.Nodup
import Mathlib.Data.List.Perm.Subperm

/-!
# What a node knows

A node that is given nothing but messages that were made knows some of these, each of them once, and
keeps no others for rumor rounds. If no two messages give one key different values, the order in
which they were learned does not show in the values that the node holds: these are those of exactly
the messages that it has seen.
-/

namespace Epidemic

namespace Message

/-- Whether no two messages of a list give one key values that differ, when it is said in what sense
values are the same. -/
def Agree (same : Json.Value → Json.Value → Prop) (messages : List Message) : Prop :=
  ∀ a ∈ messages, ∀ b ∈ messages, ∀ key value value',
    Json.Members.last? key a.payload = some value →
      Json.Members.last? key b.payload = some value' → same value value'

/-- The last value that several messages give to a key is one that one of them gives. -/
theorem exists_of_last?_flatMap {messages : List Message} {key : String} {value : Json.Value}
    (h : Json.Members.last? key (messages.flatMap (·.payload)) = some value) :
    ∃ message ∈ messages, Json.Members.last? key message.payload = some value := by
  induction messages with
  | nil => cases h
  | cons first rest ih =>
    rw [List.flatMap_cons, Json.Members.last?_append, Option.or_eq_some_iff] at h
    rcases h with hrest | ⟨-, hfirst⟩
    · obtain ⟨message, hmem, hvalue⟩ := ih hrest
      exact ⟨message, List.mem_cons_of_mem first hmem, hvalue⟩
    · exact ⟨first, List.mem_cons_self, hfirst⟩

/-- If one of several messages gives a value to a key, the key has a last value. -/
theorem isSome_last?_flatMap {messages : List Message} {message : Message} {key : String}
    {value : Json.Value} (hmem : message ∈ messages)
    (hvalue : Json.Members.last? key message.payload = some value) :
    ∃ value, Json.Members.last? key (messages.flatMap (·.payload)) = some value := by
  rw [← Option.isSome_iff_exists, Json.Members.last?_isSome_iff]
  refine ⟨value, List.mem_flatMap.mpr ⟨message, hmem, ?_⟩⟩
  exact Json.Members.mem_of_last?_eq_some hvalue

/-- The values after several messages. -/
theorem get?_mergeAll_nil (messages : List Message) (key : String) :
    Json.Members.get? key (mergeAll [] messages) =
      Json.Members.last? key (messages.flatMap (·.payload)) := by
  rw [get?_mergeAll]
  exact Option.or_none

/-- After several messages the keys are in ascending order. -/
theorem ascending_mergeAll {state : Payload} (h : Json.Members.Ascending state)
    (messages : List Message) : Json.Members.Ascending (mergeAll state messages) := by
  induction messages generalizing state with
  | nil => exact h
  | cons message rest ih => exact ih (h.merge message.payload)

/-- If messages agree, it does not matter in which order they were learned, nor how often. -/
theorem alike_mergeAll {same : Json.Value → Json.Value → Prop} {made earlier later : List Message}
    (hagree : Agree same made) (hearlier : ∀ message ∈ earlier, message ∈ made)
    (hsame : ∀ message, message ∈ earlier ↔ message ∈ later) :
    Json.Members.Alike same (mergeAll [] earlier) (mergeAll [] later) := by
  refine Json.Members.alike_of_get? (ascending_mergeAll .nil earlier) (ascending_mergeAll .nil later)
    fun key => ?_
  rw [get?_mergeAll_nil, get?_mergeAll_nil]
  cases hfirst : Json.Members.last? key (earlier.flatMap (·.payload)) with
  | none =>
    cases hsecond : Json.Members.last? key (later.flatMap (·.payload)) with
    | none => exact .none
    | some value =>
      obtain ⟨message, hmem, hvalue⟩ := exists_of_last?_flatMap hsecond
      obtain ⟨other, hother⟩ := isSome_last?_flatMap ((hsame message).mpr hmem) hvalue
      rw [hfirst] at hother
      cases hother
  | some value =>
    obtain ⟨message, hmem, hvalue⟩ := exists_of_last?_flatMap hfirst
    obtain ⟨other, hother⟩ := isSome_last?_flatMap ((hsame message).mp hmem) hvalue
    obtain ⟨message', hmem', hvalue'⟩ := exists_of_last?_flatMap hother
    rw [hother]
    exact .some (hagree message (hearlier message hmem) message'
      (hearlier message' ((hsame message').mpr hmem')) key value other hvalue hvalue')

end Message

/-- Whether a node knows nothing but messages of a list, each of them once, and keeps no others. -/
structure Node.Knows (made : List Message) (node : Node) : Prop where
  /-- It knows what it has learned from some of the messages. -/
  learned : ∃ messages, (∀ message ∈ messages, message ∈ made) ∧
    (Node.new node.id node.rumorRounds).Learned messages node
  /-- It has seen no id twice. -/
  nodup : node.seen.Nodup
  /-- What it keeps for rumor rounds are messages of the list. -/
  kept : ∀ rumor ∈ node.rumors, rumor.message ∈ made

/-- Whether a node holds the values of some messages and no others, when it is said in what sense
values are the same. -/
structure Node.HoldsUnion (same : Json.Value → Json.Value → Prop) (messages : List Message)
    (node : Node) : Prop where
  /-- What it holds is a value of one of the messages. -/
  given : ∀ key value, node.get? key = some value →
    ∃ message ∈ messages, Json.Members.last? key message.payload = some value
  /-- It holds every value that one of the messages gives. -/
  held : ∀ message ∈ messages, ∀ key value, Json.Members.last? key message.payload = some value →
    ∃ held, node.get? key = some held ∧ same held value

namespace Node.Knows

variable {same : Json.Value → Json.Value → Prop} {made more : List Message} {node after : Node}
  {message : Message}

/-- What a node has seen was made. -/
theorem exists_made (h : node.Knows made) {id : MessageId} (hseen : id ∈ node.seen) :
    ∃ message ∈ made, message.id = id := by
  obtain ⟨messages, hmessages, hlearned⟩ := h.learned
  rw [hlearned.seen, List.mem_append, List.mem_reverse, List.mem_map] at hseen
  obtain ⟨message, hmem, rfl⟩ := hseen.resolve_right List.not_mem_nil
  exact ⟨message, hmessages message hmem, rfl⟩

/-- Everything that a node has seen it has counted, as an own message or as one received. -/
theorem length_seen (h : node.Knows made) :
    node.seen.length = node.stats.originated + node.stats.received := by
  obtain ⟨messages, -, hlearned⟩ := h.learned
  have hcounted : node.stats.originated + node.stats.received = 0 + 0 + messages.length :=
    hlearned.counted
  have hseen : node.seen = (messages.map (·.id)).reverse ++ [] := hlearned.seen
  rw [hseen, List.append_nil, List.length_reverse, List.length_map]
  omega

/-- A node has seen no more than was made. -/
theorem length_seen_le (h : node.Knows made) : node.seen.length ≤ made.length := by
  have hsubset : node.seen ⊆ made.map (·.id) := by
    intro id hseen
    obtain ⟨message, hmem, rfl⟩ := h.exists_made hseen
    exact List.mem_map_of_mem hmem
  have hlength := (List.subperm_of_subset h.nodup hsubset).length_le
  rwa [List.length_map] at hlength

/-- More messages may be made. -/
theorem mono (h : node.Knows made) (hmore : ∀ message ∈ made, message ∈ more) :
    node.Knows more where
  learned := by
    obtain ⟨messages, hmessages, hlearned⟩ := h.learned
    exact ⟨messages, fun message hmem => hmore message (hmessages message hmem), hlearned⟩
  nodup := h.nodup
  kept rumor hrumor := hmore _ (h.kept rumor hrumor)

/-- A node that learns a message that it has not seen. -/
theorem learn (h : node.Knows made) (hmessage : message ∈ made) (hnew : message.id ∉ node.seen)
    (hlearned : node.Learned [message] after)
    (hkept : ∀ rumor ∈ after.rumors, rumor ∈ node.rumors ∨ rumor.message = message) :
    after.Knows made where
  learned := by
    obtain ⟨messages, hmessages, hbefore⟩ := h.learned
    refine ⟨messages ++ [message], fun other hother => ?_, ?_⟩
    · rcases List.mem_append.mp hother with hold | hnew
      · exact hmessages other hold
      · rw [List.mem_singleton.mp hnew]
        exact hmessage
    · have hafter := hbefore.append hlearned
      exact ⟨hafter.seen, hafter.state, hafter.counted⟩
  nodup := by
    rw [hlearned.seen]
    exact List.nodup_cons.mpr ⟨hnew, h.nodup⟩
  kept rumor hrumor := by
    rcases hkept rumor hrumor with hold | heq
    · exact h.kept rumor hold
    · rw [heq]
      exact hmessage

/-- A node that learns nothing and keeps nothing new. -/
theorem rest (h : node.Knows made) (hlearned : node.Learned [] after)
    (hkept : ∀ rumor ∈ after.rumors, ∃ earlier ∈ node.rumors, earlier.message = rumor.message) :
    after.Knows made where
  learned := by
    obtain ⟨messages, hmessages, hbefore⟩ := h.learned
    have hafter := hbefore.append hlearned
    rw [List.append_nil] at hafter
    exact ⟨messages, hmessages, hafter.seen, hafter.state, hafter.counted⟩
  nodup := by
    rw [hlearned.seen]
    exact h.nodup
  kept rumor hrumor := by
    obtain ⟨earlier, hold, heq⟩ := hkept rumor hrumor
    rw [← heq]
    exact h.kept earlier hold

/-- If the messages have different ids, a node has learned exactly those that it has seen. -/
theorem exists_state_eq (h : node.Knows made) (hdistinct : (made.map (·.id)).Nodup) :
    ∃ messages, node.state = Message.mergeAll [] messages ∧
      ∀ message, message ∈ messages ↔ message ∈ made ∧ message.id ∈ node.seen := by
  obtain ⟨messages, hmessages, hlearned⟩ := h.learned
  have hseen : node.seen = (messages.map (·.id)).reverse := by
    rw [hlearned.seen]
    exact List.append_nil _
  refine ⟨messages, hlearned.state, fun message => ?_⟩
  rw [hseen, List.mem_reverse, List.mem_map]
  constructor
  · exact fun hmem => ⟨hmessages message hmem, message, hmem, rfl⟩
  · rintro ⟨hmade, other, hother, hid⟩
    rw [← List.inj_on_of_nodup_map hdistinct (hmessages other hother) hmade hid]
    exact hother

/-- If the messages agree too, the node holds the values of exactly those that it has seen. -/
theorem holdsUnion (h : node.Knows made) (hdistinct : (made.map (·.id)).Nodup)
    (hagree : Message.Agree same made) :
    node.HoldsUnion same (made.filter fun message => node.hasSeen message.id) := by
  obtain ⟨messages, hstate, hmessages⟩ := h.exists_state_eq hdistinct
  have hiff : ∀ message, message ∈ messages ↔
      message ∈ made.filter fun message => node.hasSeen message.id := by
    intro message
    rw [hmessages, List.mem_filter, hasSeen, List.contains_iff_mem]
  refine ⟨fun key value hvalue => ?_, fun message hmem key value hvalue => ?_⟩
  · rw [get?, hstate, Message.get?_mergeAll_nil] at hvalue
    obtain ⟨message, hmem, hlast⟩ := Message.exists_of_last?_flatMap hvalue
    exact ⟨message, (hiff message).mp hmem, hlast⟩
  · obtain ⟨held, hheld⟩ := Message.isSome_last?_flatMap ((hiff message).mpr hmem) hvalue
    obtain ⟨other, hother, hlast⟩ := Message.exists_of_last?_flatMap hheld
    refine ⟨held, ?_, hagree other ((hmessages other).mp hother).1 message
      (List.mem_of_mem_filter hmem) key held value hlast hvalue⟩
    rw [get?, hstate, Message.get?_mergeAll_nil]
    exact hheld

/-- Two nodes that have seen the same hold the same. -/
theorem alike_of_seen (h : node.Knows made) (h' : after.Knows made)
    (hdistinct : (made.map (·.id)).Nodup) (hagree : Message.Agree same made)
    (hseen : ∀ id, id ∈ node.seen ↔ id ∈ after.seen) :
    Json.Members.Alike same node.state after.state := by
  obtain ⟨messages, hstate, hmessages⟩ := h.exists_state_eq hdistinct
  obtain ⟨messages', hstate', hmessages'⟩ := h'.exists_state_eq hdistinct
  rw [hstate, hstate']
  refine Message.alike_mergeAll hagree (fun message hmem => ((hmessages message).mp hmem).1)
    fun message => ?_
  rw [hmessages, hmessages', hseen]

end Node.Knows

namespace Life

variable {π : Type} [Policy π] {made : List Message} {now : Nat} {deed : Deed}

/-- Whatever is done to a node, it knows messages that were made, if it is given no others and a
broadcast has an id that it has not seen. -/
theorem knows_step (life : Life π) (h : life.node.Knows made)
    (horiginated : ∀ message ∈ life.originated? now deed,
      message ∈ made ∧ message.id ∉ life.node.seen)
    (hoffered : ∀ message sender, deed = .receive message sender → message ∈ made) :
    (life.step now deed).1.node.Knows made := by
  have hcourse := course_step life now deed
  generalize (life.step now deed).1 = after at hcourse ⊢
  generalize (life.step now deed).2 = sends at hcourse
  cases hcourse with
  | still _ hnode _ _ =>
    obtain ⟨peers, isDown, duplicates, hnode⟩ := hnode
    rw [hnode]
    exact h.rest ⟨rfl, rfl, rfl⟩ fun rumor hrumor => ⟨rumor, hrumor, rfl⟩
  | @originate id kind payload _ hdeed hup hnode _ =>
    subst hdeed
    obtain ⟨hmade, hnew⟩ := horiginated (life.node.compose now id kind payload)
      (if_neg (ne_true_of_eq_false hup))
    rw [hnode]
    refine h.learn hmade hnew ⟨rfl, rfl, Nat.add_right_comm _ 1 _⟩ fun rumor hrumor => ?_
    refine (List.mem_append.mp hrumor).imp_right fun hkept => ?_
    rw [(Node.mem_keepsakes.mp hkept).2]
  | @accept message sender _ hdeed _ hnew hnode _ =>
    have hmade := hoffered message sender hdeed
    rw [hnode]
    refine h.learn hmade (fun hmem => ?_) ⟨rfl, rfl, rfl⟩ fun rumor hrumor => ?_
    · exact ne_true_of_eq_false hnew (List.contains_iff_mem.mpr hmem)
    · refine (List.mem_append.mp hrumor).imp_right fun hkept => ?_
      split at hkept
      · rw [(Node.mem_keepsakes.mp hkept).2]
      · cases hkept
  | round _ _ hnode _ =>
    rw [hnode]
    exact h.rest ⟨rfl, rfl, rfl⟩ fun rumor hrumor => Node.mem_ageRumors hrumor

end Life

end Epidemic
