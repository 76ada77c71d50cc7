import Epidemic.Proofs.Node.Knowledge
import Epidemic.Proofs.World.Passage

/-!
# What the nodes of a world know

If nobody meddles from outside, nodes know nothing but the messages of the broadcasts that were
made, and nothing else is in transit. Every batch that is handed over is a push of one of these.
-/

namespace Epidemic

namespace World

variable {σ : Type} {k : Nat}

/-- Whether messages of a list are all that nodes know and all that is in transit. -/
structure Knowledge (made : List Message) (world : World σ k) : Prop where
  /-- Every node knows some of the messages. -/
  knows : ∀ member ∈ world.members, member.node.Knows made
  /-- Nothing else is in transit. -/
  transit : ∀ envelope ∈ world.transit, envelope.message ∈ made

variable {made more : List Message} {batches others : List Batch} {world after : World σ k}

/-- A broadcast with an id of its own was seen by nobody. -/
theorem Knowledge.fresh (h : world.Knowledge made) (hdistinct : ((made ++ more).map (·.id)).Nodup)
    {member : Member k} (hmember : member ∈ world.members) {message : Message}
    (hmessage : message ∈ more) : message.id ∉ member.node.seen := by
  intro hseen
  obtain ⟨other, hother, hid⟩ := (h.knows member hmember).exists_made hseen
  rw [List.map_append] at hdistinct
  refine List.disjoint_of_nodup_append hdistinct (List.mem_map_of_mem hother) ?_
  rw [hid]
  exact List.mem_map_of_mem hmessage

variable [Random.Source σ]

/-- What a node hands over are pushes of messages that were made. -/
theorem Knowledge.exists_isPush (h : world.Knowledge made) {member : Member k}
    (hmember : member ∈ world.members) {deed : Deed}
    (hoffered : ∀ message sender, deed = .receive message sender →
      ∃ envelope ∈ world.transit, envelope.message = message) {batch : Batch}
    (hbatch : batch ∈ (world.lifeOf member).batches world.wall deed) :
    ∃ message ∈ made ++ ((world.lifeOf member).originated? world.wall deed).toList,
      batch.IsPush member.node.id message (world.protocolOf member).fanout := by
  obtain ⟨message, hpush, hwhence⟩ := Life.exists_isPush_of_mem_batches hbatch
  refine ⟨message, List.mem_append.mpr ?_, hpush⟩
  rcases hwhence with horiginated | ⟨sender, hreceived⟩ | ⟨rumor, hrumor, rfl⟩
  · exact Or.inr (Option.mem_toList.mpr horiginated)
  · obtain ⟨envelope, hmem, rfl⟩ := hoffered message sender hreceived
    exact Or.inl (h.transit envelope hmem)
  · exact Or.inl ((h.knows member hmember).kept rumor hrumor)

/-- Every change keeps to the messages that are made. -/
theorem Knowledge.change (h : world.Knowledge made)
    (hdistinct : ((made ++ more).map (·.id)).Nodup) (hchange : world.Change more others after) :
    after.Knowledge (made ++ more) := by
  have hstill : after.members = world.members →
      (∀ envelope ∈ after.transit, envelope ∈ [] ∨ envelope ∈ world.transit) →
      after.Knowledge (made ++ more) := by
    intro hmembers htransit
    refine ⟨fun member hmember => ?_, fun envelope hmem => ?_⟩
    · rw [hmembers] at hmember
      exact (h.knows member hmember).mono fun message hmem => List.mem_append_left more hmem
    · have hbefore := (htransit envelope hmem).resolve_left List.not_mem_nil
      exact List.mem_append_left more (h.transit envelope hbefore)
  cases hchange with
  | still hmembers hbooks => exact hstill hmembers hbooks.transit
  | unheard _ _ hmembers hbooks => exact hstill hmembers hbooks.transit
  | @deed _ index member deed hat hoffered hmembers hbooks =>
    have hmember := List.mem_of_getElem? hat
    refine ⟨fun other hother => ?_, fun envelope hmem => ?_⟩
    · rw [hmembers] at hother
      rcases List.mem_or_eq_of_mem_set hother with hold | rfl
      · exact (h.knows other hold).mono fun message hmem => List.mem_append_left _ hmem
      · have hknows := (h.knows member hmember).mono fun message hmem =>
          List.mem_append_left ((world.lifeOf member).originated? world.wall deed).toList hmem
        refine Life.knows_step (world.lifeOf member) hknows (fun message horiginated => ?_)
          fun message sender hreceived => ?_
        · have hmore := Option.mem_toList.mpr horiginated
          exact ⟨List.mem_append_right made hmore, h.fresh hdistinct hmember hmore⟩
        · obtain ⟨envelope, hmem, rfl⟩ := hoffered message sender hreceived
          exact List.mem_append_left _ (h.transit envelope hmem)
    · rcases hbooks.transit envelope hmem with hsent | hbefore
      · rw [← Life.flatten_batches, List.mem_flatten] at hsent
        obtain ⟨batch, hbatch, henvelope⟩ := hsent
        obtain ⟨message, hmessage, hpush⟩ := h.exists_isPush hmember hoffered hbatch
        rw [(hpush.uniform envelope henvelope).2]
        exact hmessage
      · exact List.mem_append_left _ (h.transit envelope hbefore)

/-- So does every passage. -/
theorem Knowledge.passage (h : world.Knowledge made)
    (hdistinct : ((made ++ more).map (·.id)).Nodup) (hpassage : world.Passage more others after) :
    after.Knowledge (made ++ more) :=
  hpassage.preserves (fun made _ world => world.Knowledge made) []
    (fun hknowledge hdistinct hchange => hknowledge.change hdistinct hchange) hdistinct h

end World

end Epidemic
