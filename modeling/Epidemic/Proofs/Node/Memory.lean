import Epidemic.Proofs.Node.Life
import Epidemic.Proofs.Payload
import Epidemic.Protocol
import Epidemic.Random.Script
import Mathlib.Data.List.Basic
import Mathlib.Data.List.TakeWhile

/-!
# What a node remembers of its life

A node learns the first message of every id that it is offered, by itself or by a neighbour, until
it is shut down. Everything it remembers follows from the list of these messages: the ids it has
seen, the values it holds and the sum of its two counters.
-/

namespace Epidemic

/-- The messages of a list that are new to one who knows the given ids, the first of each id. -/
def Message.news (known : List MessageId) : List Message → List Message
  | [] => []
  | message :: rest =>
    if known.contains message.id then news known rest
    else message :: news (message.id :: known) rest

/-- The values after the updates of several messages, one after the other. -/
def Message.mergeAll (state : Payload) (messages : List Message) : Payload :=
  messages.foldl (fun state message => Json.Members.merge state message.payload) state

/-- Whether a message sets a key. -/
def Message.sets (message : Message) (key : String) : Bool :=
  message.payload.any fun entry => entry.1 == key

namespace Message

/-- A message sets a key if its payload gives a last value to it. -/
theorem isSome_last?_payload (message : Message) (key : String) :
    (Json.Members.last? key message.payload).isSome = message.sets key := by
  rw [Bool.eq_iff_iff, Json.Members.last?_isSome_iff, sets, List.any_eq_true]
  constructor
  · rintro ⟨value, hmem⟩
    exact ⟨(key, value), hmem, beq_self_eq_true key⟩
  · rintro ⟨⟨name, value⟩, hmem, hname⟩
    rw [beq_iff_eq] at hname
    exact ⟨value, hname ▸ hmem⟩

/-- After a message that is known already the news are those of the rest. -/
theorem news_cons_of_known {known : List MessageId} {message : Message}
    (h : known.contains message.id = true) (rest : List Message) :
    news known (message :: rest) = news known rest := if_pos h

/-- A message that is not known is news, and is known from then on. -/
theorem news_cons_of_new {known : List MessageId} (message : Message)
    (h : known.contains message.id = false) (rest : List Message) :
    news known (message :: rest) = message :: news (message.id :: known) rest :=
  if_neg (ne_true_of_eq_false h)

/-- What is news in two lists: what is news in the first one, and then what is news in the second
one to whoever has learned that. -/
theorem news_append (known : List MessageId) (earlier later : List Message) :
    news known (earlier ++ later) =
      news known earlier ++ news (((news known earlier).map (·.id)).reverse ++ known) later := by
  induction earlier generalizing known with
  | nil => rfl
  | cons message rest ih =>
    cases hknown : known.contains message.id with
    | true =>
      rw [List.cons_append, news_cons_of_known hknown, news_cons_of_known hknown]
      exact ih known
    | false =>
      rw [List.cons_append, news_cons_of_new _ hknown, news_cons_of_new _ hknown, ih,
        List.cons_append, List.map_cons, List.reverse_cons, List.append_assoc]
      rfl

/-- Whoever has learned the news knows what was known before, and the ids of all the messages. -/
theorem mem_known_news {known : List MessageId} {messages : List Message} {id : MessageId} :
    id ∈ ((news known messages).map (·.id)).reverse ++ known ↔
      id ∈ known ∨ ∃ message ∈ messages, message.id = id := by
  induction messages generalizing known with
  | nil => simp only [news, List.map_nil, List.reverse_nil, List.nil_append, List.not_mem_nil,
      false_and, exists_false, or_false]
  | cons message rest ih =>
    cases hknown : known.contains message.id with
    | true =>
      rw [news_cons_of_known hknown, ih, List.exists_mem_cons_iff]
      constructor
      · rintro (hmem | hrest)
        · exact Or.inl hmem
        · exact Or.inr (Or.inr hrest)
      · rintro (hmem | rfl | hrest)
        · exact Or.inl hmem
        · exact Or.inl (List.contains_iff_mem.mp hknown)
        · exact Or.inr hrest
    | false =>
      rw [news_cons_of_new _ hknown, List.map_cons, List.reverse_cons, List.append_assoc,
        List.singleton_append, ih, List.exists_mem_cons_iff, List.mem_cons]
      constructor
      · rintro ((heq | hmem) | hrest)
        · exact Or.inr (Or.inl heq.symm)
        · exact Or.inl hmem
        · exact Or.inr (Or.inr hrest)
      · rintro (hmem | heq | hrest)
        · exact Or.inl (Or.inr hmem)
        · exact Or.inl (Or.inl heq.symm)
        · exact Or.inr hrest

/-- If no id was known twice before, none is known twice afterwards. -/
theorem nodup_known_news {known : List MessageId} (h : known.Nodup) (messages : List Message) :
    (((news known messages).map (·.id)).reverse ++ known).Nodup := by
  induction messages generalizing known with
  | nil => exact h
  | cons message rest ih =>
    cases hknown : known.contains message.id with
    | true =>
      rw [news_cons_of_known hknown]
      exact ih h
    | false =>
      have hmem : message.id ∉ known := fun hmem =>
        ne_true_of_eq_false hknown (List.contains_iff_mem.mpr hmem)
      rw [news_cons_of_new _ hknown, List.map_cons, List.reverse_cons, List.append_assoc]
      exact ih (List.nodup_cons.mpr ⟨hmem, h⟩)

/-- After several messages a key has the last value that one of them gives to it. -/
theorem get?_mergeAll (state : Payload) (messages : List Message) (key : String) :
    Json.Members.get? key (mergeAll state messages) =
      (Json.Members.last? key (messages.flatMap (·.payload))).or (state.get? key) := by
  induction messages generalizing state with
  | nil => rfl
  | cons message rest ih =>
    have hcons : mergeAll state (message :: rest) =
        mergeAll (state.merge message.payload) rest := rfl
    rw [hcons, ih, Json.Members.get?_merge, List.flatMap_cons, Json.Members.last?_append,
      Option.or_assoc]

/-- If at most one of several messages sets a key, it has no last value or the one of this
message. -/
theorem last?_flatMap_eq_or {messages : List Message} {message : Message} {key : String}
    (hothers : ∀ other ∈ messages, other = message ∨ Json.Members.last? key other.payload = none) :
    Json.Members.last? key (messages.flatMap (·.payload)) = none ∨
      Json.Members.last? key (messages.flatMap (·.payload)) =
        Json.Members.last? key message.payload := by
  induction messages with
  | nil => exact Or.inl rfl
  | cons first rest ih =>
    rw [List.flatMap_cons, Json.Members.last?_append]
    have hfirst := hothers first List.mem_cons_self
    rcases ih fun other hmem => hothers other (List.mem_cons_of_mem first hmem) with hrest | hrest
    · rw [hrest, Option.none_or]
      rcases hfirst with rfl | hnone
      · exact Or.inr rfl
      · exact Or.inl hnone
    · rw [hrest]
      rcases hfirst with rfl | hnone
      · exact Or.inr Option.or_self
      · rw [hnone, Option.or_none]
        exact Or.inr rfl

/-- If only one of several messages sets a key, its last value is the one of this message. -/
theorem last?_flatMap {messages : List Message} {message : Message} {key : String}
    (hmem : message ∈ messages)
    (hothers : ∀ other ∈ messages, other = message ∨ Json.Members.last? key other.payload = none) :
    Json.Members.last? key (messages.flatMap (·.payload)) =
      Json.Members.last? key message.payload := by
  induction messages with
  | nil => cases hmem
  | cons first rest ih =>
    have hrest := fun other hother => hothers other (List.mem_cons_of_mem first hother)
    rw [List.flatMap_cons, Json.Members.last?_append]
    rcases List.mem_cons.mp hmem with rfl | hlater
    · rcases last?_flatMap_eq_or hrest with hnone | hsame
      · rw [hnone, Option.none_or]
      · rw [hsame, Option.or_self]
    · rw [ih hlater hrest]
      rcases hothers first List.mem_cons_self with rfl | hnone
      · exact Option.or_self
      · rw [hnone, Option.or_none]

/-- If only one of several messages sets a key, the others give no value to it. -/
theorem eq_or_last?_eq_none {messages : List Message} {message other : Message} {key : String}
    (honly : messages.filter (·.sets key) = [message]) (hother : other ∈ messages) :
    other = message ∨ Json.Members.last? key other.payload = none := by
  cases hsets : other.sets key with
  | true =>
    have hfiltered : other ∈ messages.filter (·.sets key) := List.mem_filter.mpr ⟨hother, hsets⟩
    rw [honly] at hfiltered
    exact Or.inl (List.mem_singleton.mp hfiltered)
  | false =>
    rw [← other.isSome_last?_payload, Option.isSome_eq_false_iff] at hsets
    exact Or.inr (Option.isNone_iff_eq_none.mp hsets)

end Message

/-- The messages that a node of the given name is offered before it is shut down. -/
def Deed.offered (origin : NodeId) (entries : List (Nat × Deed)) : List Message :=
  (entries.takeWhile fun entry => !entry.2.isShutdown).filterMap fun entry =>
    entry.2.message? origin entry.1

namespace Deed

/-- After it is shut down a node is offered nothing more. -/
theorem offered_cons_of_isShutdown {deed : Deed} (h : deed.isShutdown = true) (origin : NodeId)
    (now : Nat) (rest : List (Nat × Deed)) : offered origin ((now, deed) :: rest) = [] := by
  rw [offered, List.takeWhile_cons_of_neg]
  · rfl
  · rw [h]
    exact Bool.false_ne_true

/-- Before that it is offered the message of what is done first, if there is one, and then the
others. -/
theorem offered_cons_of_not_isShutdown {deed : Deed} (h : deed.isShutdown = false) (origin : NodeId)
    (now : Nat) (rest : List (Nat × Deed)) :
    offered origin ((now, deed) :: rest) =
      (deed.message? origin now).toList ++ offered origin rest := by
  rw [offered, List.takeWhile_cons_of_pos, List.filterMap_cons]
  · cases deed.message? origin now <;> rfl
  · rw [h]
    rfl

/-- If the node is never shut down it is offered everything. -/
theorem mem_offered {origin : NodeId} {entries : List (Nat × Deed)}
    (h : ∀ entry ∈ entries, entry.2.isShutdown = false) {message : Message} :
    message ∈ offered origin entries ↔
      ∃ entry ∈ entries, entry.2.message? origin entry.1 = some message := by
  have htake : (entries.takeWhile fun entry => !entry.2.isShutdown) = entries := by
    rw [List.takeWhile_eq_self_iff]
    intro entry hmem
    rw [h entry hmem]
    rfl
  rw [offered, htake, List.mem_filterMap]

/-- If the node is never shut down, the ids it is offered are those of everything done to it. -/
theorem exists_mem_offered {origin : NodeId} {entries : List (Nat × Deed)}
    (h : ∀ entry ∈ entries, entry.2.isShutdown = false) {id : MessageId} :
    (∃ message ∈ offered origin entries, message.id = id) ↔
      ∃ entry ∈ entries, entry.2.messageId? = some id := by
  constructor
  · rintro ⟨message, hmem, rfl⟩
    obtain ⟨entry, hentry, hmessage⟩ := (mem_offered h).mp hmem
    refine ⟨entry, hentry, ?_⟩
    rw [← map_id_message? entry.2 origin entry.1, hmessage]
    rfl
  · rintro ⟨entry, hentry, hid⟩
    rw [← map_id_message? entry.2 origin entry.1, Option.map_eq_some_iff] at hid
    obtain ⟨message, hmessage, rfl⟩ := hid
    exact ⟨message, (mem_offered h).mpr ⟨entry, hentry, hmessage⟩, rfl⟩

end Deed

/-- What a node that has learned some messages remembers, compared with what it did before. -/
structure Node.Learned (before : Node) (messages : List Message) (after : Node) : Prop where
  /-- The ids of the messages are added to those seen, the last one first. -/
  seen : after.seen = (messages.map (·.id)).reverse ++ before.seen
  /-- The values are taken over from one message after the other. -/
  state : after.state = Message.mergeAll before.state messages
  /-- Every message has been counted, as an own one or as one received. -/
  counted : after.stats.originated + after.stats.received =
    before.stats.originated + before.stats.received + messages.length

namespace Node.Learned

variable {before middle after : Node} {earlier later : List Message}

/-- Messages learned one after the other. -/
theorem append (h : before.Learned earlier middle) (h' : middle.Learned later after) :
    before.Learned (earlier ++ later) after where
  seen := by
    rw [h'.seen, h.seen, List.map_append, List.reverse_append, List.append_assoc]
  state := by
    rw [h'.state, h.state, Message.mergeAll, Message.mergeAll, Message.mergeAll, List.foldl_append]
  counted := by
    rw [h'.counted, h.counted, List.length_append, Nat.add_assoc]

end Node.Learned

namespace Life

variable {π : Type} [Policy π] {life after : Life π} {now : Nat} {deed : Deed}
  {sends : List Envelope}

/-- A node that is down stays so and learns nothing. -/
theorem Course.learned_of_isDown (h : Course life now deed after sends)
    (hdown : life.node.isDown = true) :
    life.node.Learned [] after.node ∧ after.node.isDown = true := by
  cases h with
  | still _ hnode hstays _ =>
    obtain ⟨peers, isDown, duplicates, hnode⟩ := hnode
    rw [hdown, Bool.true_or] at hstays
    refine ⟨?_, hstays⟩
    rw [hnode]
    exact ⟨rfl, rfl, rfl⟩
  | originate _ hup => exact absurd hdown (ne_true_of_eq_false hup)
  | accept _ hup => exact absurd hdown (ne_true_of_eq_false hup)
  | round _ hup => exact absurd hdown (ne_true_of_eq_false hup)

/-- A node that is live learns what it is offered if that is new to it. -/
theorem Course.learned_of_isUp (h : Course life now deed after sends)
    (hup : life.node.isDown = false)
    (hfresh : ∀ id ∈ deed.generated?, life.node.hasSeen id = false) :
    life.node.Learned (Message.news life.node.seen (deed.message? life.node.id now).toList)
      after.node ∧ after.node.isDown = deed.isShutdown := by
  cases h with
  | still hreason hnode hstays _ =>
    obtain ⟨peers, isDown, duplicates, hnode⟩ := hnode
    rw [hup, Bool.false_or] at hstays
    refine ⟨?_, hstays⟩
    have hnone : Message.news life.node.seen (deed.message? life.node.id now).toList = [] := by
      rcases hreason with hdown | ⟨-, hseen⟩
      · exact absurd hdown (ne_true_of_eq_false hup)
      · cases hmessage : deed.message? life.node.id now with
        | none => rfl
        | some message => exact Message.news_cons_of_known (hseen message hmessage).2 []
    rw [hnone, hnode]
    exact ⟨rfl, rfl, rfl⟩
  | @originate id kind payload _ hdeed _ hnode _ =>
    subst hdeed
    have hnew : life.node.seen.contains id = false := hfresh id rfl
    have hnews : Message.news life.node.seen
        (Option.toList (Deed.message? life.node.id now (.broadcast id kind payload))) =
          [life.node.compose now id kind payload] :=
      Message.news_cons_of_new (life.node.compose now id kind payload) hnew []
    rw [hnews, hnode]
    refine ⟨⟨rfl, rfl, ?_⟩, hup⟩
    exact Nat.add_right_comm _ 1 _
  | @accept message sender _ hdeed _ hnew hnode _ =>
    subst hdeed
    have hnews : Message.news life.node.seen
        (Option.toList (Deed.message? life.node.id now (.receive message sender))) = [message] :=
      Message.news_cons_of_new message hnew []
    rw [hnews, hnode]
    exact ⟨⟨rfl, rfl, rfl⟩, hup⟩
  | round hdeed _ hnode _ =>
    subst hdeed
    rw [hnode]
    exact ⟨⟨rfl, rfl, rfl⟩, hup⟩

/-- A node that is down learns nothing for the rest of its life. -/
theorem learned_run_of_isDown (hdown : life.node.isDown = true) (entries : List (Nat × Deed)) :
    life.node.Learned [] (life.run entries).node ∧ (life.run entries).node.isDown = true := by
  induction entries generalizing life with
  | nil => exact ⟨⟨rfl, rfl, rfl⟩, hdown⟩
  | cons entry rest ih =>
    obtain ⟨hstep, hdown⟩ := (course_step life entry.1 entry.2).learned_of_isDown hdown
    obtain ⟨hrest, hdown⟩ := ih hdown
    exact ⟨hstep.append hrest, hdown⟩

/-- A node learns the first message of every id that it is offered before it is shut down, unless
it knew the id. -/
theorem learned_run (life : Life π) (hup : life.node.isDown = false) {entries : List (Nat × Deed)}
    (hfresh : life.GeneratesFresh entries) :
    life.node.Learned (Message.news life.node.seen (Deed.offered life.node.id entries))
        (life.run entries).node ∧
      (life.run entries).node.isDown = entries.any (·.2.isShutdown) := by
  induction entries generalizing life with
  | nil => exact ⟨⟨rfl, rfl, rfl⟩, hup⟩
  | cons entry rest ih =>
    obtain ⟨now, deed⟩ := entry
    obtain ⟨hfresh, hrest⟩ := hfresh
    obtain ⟨hstep, hstays⟩ := (course_step life now deed).learned_of_isUp hup hfresh
    cases hshut : deed.isShutdown with
    | true =>
      rw [hshut] at hstays
      obtain ⟨hlearned, hdown⟩ := learned_run_of_isDown hstays rest
      have hnone : deed.message? life.node.id now = none := by
        cases deed with
        | shutdown => rfl
        | addPeer | broadcast | receive | gossipRound | unlink => cases hshut
      rw [hnone] at hstep
      rw [Deed.offered_cons_of_isShutdown hshut, List.any_cons, hshut, Bool.true_or]
      exact ⟨hstep.append hlearned, hdown⟩
    | false =>
      rw [hshut] at hstays
      obtain ⟨hlearned, hdown⟩ := ih _ hstays hrest
      rw [Deed.offered_cons_of_not_isShutdown hshut, List.any_cons, hshut, Bool.false_or,
        Message.news_append]
      rw [hstep.seen, (course_step life now deed).keeps.1] at hlearned
      exact ⟨hstep.append hlearned, hdown⟩

/-- A new node that was never shut down has seen the ids of everything that was done to it. -/
theorem mem_seen_run {id : NodeId} {rumorRounds : Nat} {protocol : π}
    {entries : List (Nat × Deed)} (hfresh : (new id rumorRounds protocol).GeneratesFresh entries)
    (hshut : ∀ entry ∈ entries, entry.2.isShutdown = false) {messageId : MessageId} :
    messageId ∈ ((new id rumorRounds protocol).run entries).node.seen ↔
      ∃ entry ∈ entries, entry.2.messageId? = some messageId := by
  have hseen := (learned_run (new id rumorRounds protocol) rfl hfresh).1.seen
  rw [hseen, Message.mem_known_news, Deed.exists_mem_offered hshut]
  exact ⟨fun h => h.resolve_left List.not_mem_nil, Or.inr⟩

/-- Whatever its policy and whatever was done to it, a node takes a message for new exactly if it is live
and was never offered its id before. Any other message changes nothing but the count of messages
received again, and not even that if the node is down. The values and the counters are those of the
first message of each id. -/
theorem learns_each_id_once (id : NodeId) (rumorRounds : Nat) (protocol : π)
    (entries : List (Nat × Deed)) (hfresh : (new id rumorRounds protocol).GeneratesFresh entries) :
    let life := (new id rumorRounds protocol).run entries
    let learned := Message.news [] (Deed.offered id entries)
    (∀ now message sender,
      ((life.node.receive life.protocol life.linked now message sender).result.isNew = true ↔
        ∀ entry ∈ entries, entry.2.isShutdown = false ∧ entry.2.messageId? ≠ some message.id) ∧
      ((life.node.receive life.protocol life.linked now message sender).result.isNew = false →
        life.node.receive life.protocol life.linked now message sender =
          { result := if life.node.isDown then .refused else .repeated
            node := if life.node.isDown then life.node else life.node.noteRepetition
            protocol := life.protocol
            sends := [] })) ∧
    life.node.isDown = entries.any (·.2.isShutdown) ∧
    life.node.state = Message.mergeAll [] learned ∧
    (∀ key, life.node.get? key = Json.Members.last? key (learned.flatMap (·.payload))) ∧
    life.node.seen = (learned.map (·.id)).reverse ∧
    life.node.seen.Nodup ∧
    life.node.seen.length = life.node.stats.originated + life.node.stats.received := by
  intro life learned
  obtain ⟨hlearned, hdown⟩ := learned_run (new id rumorRounds protocol) rfl hfresh
  have hseen : life.node.seen = (learned.map (·.id)).reverse ++ [] := hlearned.seen
  have hstate : life.node.state = Message.mergeAll [] learned := hlearned.state
  have hcounted : life.node.stats.originated + life.node.stats.received = 0 + 0 + learned.length :=
    hlearned.counted
  refine ⟨fun now message sender => ⟨?_, Node.receive_of_not_isNew⟩, hdown, hstate, fun key => ?_,
    ?_, ?_, ?_⟩
  · rw [Node.isNew_receive, hdown, List.any_eq_false]
    constructor
    · rintro ⟨hshut, hnew⟩ entry hentry
      have hshut : ∀ entry ∈ entries, entry.2.isShutdown = false := fun entry h =>
        eq_false_of_ne_true (hshut entry h)
      refine ⟨hshut entry hentry, fun hid => ne_true_of_eq_false hnew ?_⟩
      exact List.contains_iff_mem.mpr ((mem_seen_run hfresh hshut).mpr ⟨entry, hentry, hid⟩)
    · intro hnone
      have hshut : ∀ entry ∈ entries, entry.2.isShutdown = false := fun entry h => (hnone entry h).1
      refine ⟨fun entry h => ne_true_of_eq_false (hshut entry h),
        eq_false_of_ne_true fun hseen => ?_⟩
      obtain ⟨entry, hentry, hid⟩ :=
        (mem_seen_run hfresh hshut).mp (List.contains_iff_mem.mp hseen)
      exact (hnone entry hentry).2 hid
  · rw [Node.get?, hstate, Message.get?_mergeAll]
    exact Option.or_none
  · rw [hseen, List.append_nil]
  · rw [hseen]
    exact Message.nodup_known_news List.nodup_nil _
  · rw [hcounted, hseen, List.append_nil, List.length_reverse, List.length_map, Nat.zero_add]

/-- A node that makes a broadcast, is given it back with another value, learns a second message and
is shut down before a third one reaches it. -/
def echoed : List (Nat × Deed) :=
  [(0, .addPeer "b"),
    (1, .broadcast "first" "update" [("key", .int 1)]),
    (2, .receive ⟨"first", "update", "a", [("key", .int 9)], 1⟩ "b"),
    (3, .receive ⟨"second", "update", "b", [("key", .int 2), ("other", .int 3)], 2⟩ "b"),
    (4, .shutdown),
    (5, .receive ⟨"third", "update", "b", [("key", .int 4)], 3⟩ "b")]

/-- The echo and the late message leave no trace. -/
theorem learns_each_id_once_echoed :
    (new "a" 1 (⟨1, none, ⟨[]⟩⟩ : Protocol Random.Script)).GeneratesFresh echoed ∧
      ((new "a" 1 (⟨1, none, ⟨[]⟩⟩ : Protocol Random.Script)).run echoed).node.seen =
        ["second", "first"] ∧
      (((new "a" 1 (⟨1, none, ⟨[]⟩⟩ : Protocol Random.Script)).run echoed).node.get? "key").map
        Json.Value.compact = some "2" := by
  have hfresh : (new "a" 1 (⟨1, none, ⟨[]⟩⟩ : Protocol Random.Script)).GeneratesFresh echoed := by
    decide +kernel
  have hlife :=
    learns_each_id_once "a" 1 (⟨1, none, ⟨[]⟩⟩ : Protocol Random.Script) echoed hfresh
  have hget := hlife.2.2.2.1 "key"
  have hseen := hlife.2.2.2.2.1
  refine ⟨hfresh, hseen.trans (by decide +kernel), ?_⟩
  rw [hget]
  decide +kernel

end Life

end Epidemic
