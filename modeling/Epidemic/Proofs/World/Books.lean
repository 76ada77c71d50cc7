import Epidemic.Proofs.Selection
import Epidemic.Proofs.World.Conservation
import Epidemic.Proofs.World.Reliable

/-!
# The books of a world

What is handed over and what arrives is counted by the network and written down in the journal. The
books of a world go on when nodes send and messages arrive; they stand still otherwise. In all this
the protocols follow their rules, and nothing comes to be in transit that was not sent.
-/

namespace Epidemic

namespace Event

/-- The send that is handed over. -/
def posted? : Event → Option Envelope
  | .posted _ parcel _ => some parcel.envelope
  | _ => none

/-- What the target of a message has made of it. -/
def reception? : Event → Option Reception
  | .arrived _ _ reception => some reception
  | _ => none

end Event

namespace Network

/-- An endpoint is registered if it is found. -/
theorem mem_of_lookup {entries : List (NodeId × Endpoint)} {id : NodeId} {endpoint : Endpoint}
    (h : entries.lookup id = some endpoint) : (id, endpoint) ∈ entries := by
  induction entries with
  | nil => cases h
  | cons entry rest ih =>
    rw [List.lookup_cons] at h
    split at h
    · rename_i hname
      rw [beq_iff_eq.mp hname, ← Option.some.inj h]
      exact List.mem_cons_self
    · exact List.mem_cons_of_mem entry (ih h)

end Network

namespace World

variable {σ : Type} {k : Nat}

/-- The sends that were handed over, in their order. -/
def posted (world : World σ k) : List Envelope := world.journal.reverse.filterMap Event.posted?

/-- What was made of the messages that arrived, in their order. -/
def receptions (world : World σ k) : List Reception :=
  world.journal.reverse.filterMap Event.reception?

/-- How the books of a world go on when some sends are handed over and some messages arrive:
whatever happens to the nodes, no endpoint is added and the protocols follow their rules. -/
structure Extends (world : World σ k) (sends : List Envelope) (receptions : List Reception)
    (after : World σ k) : Prop where
  /-- No endpoint is added. -/
  registry : ∀ entry ∈ after.network.registry, entry ∈ world.network.registry
  /-- The protocols follow the same rules. -/
  rules : ∀ member, (world.protocolOf member).SameRules (after.protocolOf member)
  /-- The sends are counted. -/
  sent : after.network.stats.sent = world.network.stats.sent + sends.length
  /-- The arrivals are counted. -/
  delivered : after.network.stats.delivered = world.network.stats.delivered + receptions.length
  /-- The sends are written down. -/
  posted : after.posted = world.posted ++ sends
  /-- The arrivals are written down. -/
  receptions : after.receptions = world.receptions ++ receptions
  /-- Nothing is in transit but the sends and what was before. -/
  transit : ∀ envelope ∈ after.transit, envelope ∈ sends ∨ envelope ∈ world.transit

variable {world after : World σ k}

/-- What is read off one more entry of the journal comes last. -/
theorem filterMap_record {α : Type} (read : Event → Option α) (world : World σ k) (event : Event) :
    (world.record event).journal.reverse.filterMap read =
      world.journal.reverse.filterMap read ++ (read event).toList := by
  rw [record, List.reverse_cons, List.filterMap_append, List.filterMap_cons, List.filterMap_nil]
  cases read event <;> rfl

/-- One more entry of the journal. -/
theorem posted_record (world : World σ k) (event : Event) :
    (world.record event).posted = world.posted ++ event.posted?.toList :=
  filterMap_record Event.posted? world event

/-- The same for what is made of messages. -/
theorem receptions_record (world : World σ k) (event : Event) :
    (world.record event).receptions = world.receptions ++ event.reception?.toList :=
  filterMap_record Event.reception? world event

/-- The books do not go on if nothing is counted and nothing written down. -/
theorem extends_of_still (hregistry : ∀ entry ∈ after.network.registry,
      entry ∈ world.network.registry)
    (hprotocols : after.protocols = world.protocols)
    (hsent : after.network.stats.sent = world.network.stats.sent)
    (hdelivered : after.network.stats.delivered = world.network.stats.delivered)
    (hjournal : after.journal = world.journal)
    (htransit : ∀ envelope ∈ after.transit, envelope ∈ world.transit) :
    world.Extends [] [] after where
  registry := hregistry
  rules member := by
    rw [protocolOf, protocolOf, hprotocols]
    exact ⟨rfl, rfl⟩
  sent := hsent
  delivered := hdelivered
  posted := by rw [posted, hjournal, List.append_nil, posted]
  receptions := by rw [receptions, hjournal, List.append_nil, receptions]
  transit envelope hmem := Or.inr (htransit envelope hmem)

/-- A world goes on from itself. -/
theorem extends_refl (world : World σ k) : world.Extends [] [] world :=
  extends_of_still (fun _ hmem => hmem) rfl rfl rfl rfl fun _ hmem => hmem

/-- The books may go on twice. -/
theorem Extends.trans {first second third : World σ k} {earlier later : List Envelope}
    {before behind : List Reception} (h : first.Extends earlier before second)
    (h' : second.Extends later behind third) :
    first.Extends (earlier ++ later) (before ++ behind) third where
  registry entry hmem := h.registry entry (h'.registry entry hmem)
  rules member := (h.rules member).trans (h'.rules member)
  sent := by rw [h'.sent, h.sent, List.length_append, Nat.add_assoc]
  delivered := by rw [h'.delivered, h.delivered, List.length_append, Nat.add_assoc]
  posted := by rw [h'.posted, h.posted, List.append_assoc]
  receptions := by rw [h'.receptions, h.receptions, List.append_assoc]
  transit envelope hmem := by
    rw [List.mem_append]
    rcases h'.transit envelope hmem with hlater | hsecond
    · exact Or.inl (Or.inr hlater)
    · exact (h.transit envelope hsecond).imp_left Or.inl

/-- The books do not go on when something is written down that is neither a send nor an arrival. -/
theorem Extends.recordOther {sends : List Envelope} {receptions : List Reception}
    (h : world.Extends sends receptions after) {event : Event} (hsend : event.posted? = none)
    (harrival : event.reception? = none) :
    world.Extends sends receptions (after.record event) where
  registry := h.registry
  rules := h.rules
  sent := h.sent
  delivered := h.delivered
  posted := by rw [posted_record, hsend, h.posted]; exact List.append_nil _
  receptions := by rw [receptions_record, harrival, h.receptions]; exact List.append_nil _
  transit := h.transit

/-- A delivery is counted first and written down last. -/
theorem Extends.recordArrival {middle : World σ k} {sends : List Envelope}
    (h : (middle.withNetwork middle.network.countDelivered).Extends sends [] after)
    (hbefore : world.Extends [] [] middle) (time : Nat) (parcel : Parcel) (reception : Reception) :
    world.Extends sends [reception] (after.record (.arrived time parcel reception)) where
  registry entry hmem := hbefore.registry entry (h.registry entry hmem)
  rules member := (hbefore.rules member).trans (h.rules member)
  sent := by
    have hsent : after.network.stats.sent = middle.network.stats.sent + sends.length := h.sent
    rw [hbefore.sent] at hsent
    exact hsent
  delivered := by
    have hdelivered : after.network.stats.delivered = middle.network.stats.delivered + 1 :=
      h.delivered
    rw [hbefore.delivered] at hdelivered
    exact hdelivered
  posted := by
    have hposted : after.posted = middle.posted ++ sends := h.posted
    rw [posted_record, hposted, hbefore.posted]
    simp only [List.append_nil, Event.posted?, Option.toList_none]
  receptions := by
    have hreceptions : after.receptions = middle.receptions ++ [] := h.receptions
    rw [receptions_record, hreceptions, hbefore.receptions]
    simp only [List.append_nil, Event.reception?, Option.toList_some]
  transit envelope hmem := by
    refine (h.transit envelope hmem).imp_right fun hmiddle => ?_
    exact (hbefore.transit envelope hmiddle).resolve_left List.not_mem_nil

/-- The world without a ready task is one in which nothing has happened. -/
theorem extends_withReady {position : Nat} {task : Task}
    (hat : world.agenda.ready[position]? = some task) :
    world.Extends [] [] (world.withReady (world.agenda.ready.eraseIdx position)) := by
  refine extends_of_still (fun _ hmem => hmem) rfl rfl rfl rfl fun envelope hmem => ?_
  rw [(perm_transit_withReady hat).mem_iff]
  exact List.mem_append_right _ hmem

/-- The message of a ready task is in transit. -/
theorem mem_transit_of_ready {position delay : Nat} {parcel : Parcel}
    (hat : world.agenda.ready[position]? = some (.parcel delay parcel)) :
    parcel.envelope ∈ world.transit := by
  rw [(perm_transit_withReady hat).mem_iff]
  exact List.mem_cons_self

variable [Random.Source σ]

/-- A send is counted and written down. -/
theorem extends_send (world : World σ k) (envelope : Envelope) :
    world.Extends [envelope] [] (world.send envelope) := by
  obtain ⟨agenda, heq, hpending⟩ := send_eq world envelope
  obtain ⟨hsent, hcount⟩ := world.network.stats_dispatch
  obtain ⟨generator, stats, hnetwork⟩ := world.network.dispatch_keeps
  have hdelivered : world.network.dispatch.2.stats.delivered = world.network.stats.delivered := by
    have hnone : world.network.dispatch.1.outcome? ≠ some .delivered := by
      cases world.network.dispatch.1 <;> exact fun h => by cases h
    have hkept := hcount .delivered
    rw [if_neg hnone] at hkept
    exact hkept
  rw [heq]
  refine ⟨?_, fun member => ⟨rfl, rfl⟩, hsent, hdelivered, ?_, ?_, fun other hmem => ?_⟩
  · rw [hnetwork]
    exact fun entry hmem => hmem
  · exact posted_record world _
  · exact receptions_record world _
  · have hmem : other ∈ (world.network.dispatch.1.inTransit ⟨world.network.stats.sent, envelope⟩ ++
        world.pending).map (·.envelope) := (hpending.map (·.envelope)).mem_iff.mp hmem
    rw [List.map_append] at hmem
    refine (List.mem_append.mp hmem).imp_left fun hsent => ?_
    obtain ⟨parcel, hparcel, rfl⟩ := List.mem_map.mp hsent
    cases hfate : world.network.dispatch.1 with
    | dropped | unscheduled =>
      rw [hfate] at hparcel
      cases hparcel
    | scheduled delay =>
      rw [hfate] at hparcel
      rw [List.mem_singleton.mp hparcel]
      exact List.mem_singleton.mpr rfl

/-- Several sends are counted and written down. -/
theorem extends_sendAll (world : World σ k) (envelopes : List Envelope) :
    world.Extends envelopes [] (world.sendAll envelopes) := by
  induction envelopes generalizing world with
  | nil => exact extends_refl world
  | cons envelope rest ih => exact (extends_send world envelope).trans (ih (world.send envelope))

end World

end Epidemic
