import Epidemic.Proofs.World.Passage

/-!
# Nodes that are down rest

When all nodes of a world are down, whatever is done to them has no effect: they make no broadcasts,
learn nothing and send nothing, and no random choice is made for them any more. Messages in transit
still arrive, and are resolved one by one; no others take their place.
-/

namespace Epidemic

/-- A node without its peers: what it is, what it holds and what it has done. -/
def Node.unlinked (node : Node) : Node := { node with peers := [] }

namespace Life

variable {π : Type} [Policy π]

/-- Whatever is done to a node that is down, it may get peers and nothing else: it draws nothing and
sends nothing. -/
theorem step_of_isDown (life : Life π) (now : Nat) (deed : Deed) (h : life.node.isDown = true) :
    (life.step now deed).1.node.unlinked = life.node.unlinked ∧
      (life.step now deed).1.protocol = life.protocol ∧ (life.step now deed).2 = [] := by
  cases deed with
  | addPeer peer =>
    refine ⟨?_, rfl, rfl⟩
    simp only [step, Node.addPeer]
    split <;> rfl
  | broadcast id kind payload =>
    refine ⟨?_, ?_, ?_⟩ <;> simp only [step, follow, Node.broadcast_of_isDown h]
  | receive message sender =>
    refine ⟨?_, ?_, ?_⟩ <;> simp only [step, follow, Node.receive_of_isDown h]
  | gossipRound =>
    refine ⟨?_, ?_, ?_⟩ <;> simp only [step, follow, Node.gossipRound_of_isDown h]
  | shutdown =>
    refine ⟨?_, rfl, rfl⟩
    simp only [step, Node.shutdown, Node.unlinked, h]
  | unlink => exact ⟨rfl, rfl, rfl⟩

end Life

namespace World

variable {σ : Type} {k : Nat}

/-- Whether all nodes are down. -/
def IsDown (world : World σ k) : Prop := ∀ node ∈ world.nodes, node.isDown = true

/-- How a world goes on in which nothing is done any more: messages in transit are resolved, in that
they are delivered or turn out to be undeliverable, and that is all that is counted. -/
structure Rests (world after : World σ k) : Prop where
  /-- The nodes hold what they have held, and have done what they had done. -/
  nodes : after.nodes.map Node.unlinked = world.nodes.map Node.unlinked
  /-- No peers are drawn. -/
  protocols : after.protocols = world.protocols
  /-- Neither losses nor delays are drawn. -/
  generator : after.network.generator = world.network.generator
  /-- No send is handed over. -/
  sent : after.network.stats.sent = world.network.stats.sent
  /-- No send is lost. -/
  dropped : after.network.stats.dropped = world.network.stats.dropped
  /-- Some of the messages in transit are resolved, and the others are still in transit. -/
  resolved : ∃ resolved, after.outcomes = resolved ++ world.outcomes ∧
    (∀ entry ∈ resolved, entry.2 ≠ .dropped) ∧
    (resolved.map (·.1) ++ after.pending.map (·.serial)).Perm (world.pending.map (·.serial))

variable {world middle after : World σ k}

/-- A world rests if neither nodes nor protocols change, nothing is drawn, counted or written down,
and the same messages are in transit. -/
theorem rests_of_still (hmembers : after.members = world.members)
    (hprotocols : after.protocols = world.protocols)
    (hgenerator : after.network.generator = world.network.generator)
    (hstats : after.network.stats = world.network.stats) (hjournal : after.journal = world.journal)
    (hpending : after.pending.Perm world.pending) : world.Rests after where
  nodes := by rw [nodes, hmembers, nodes]
  protocols := hprotocols
  generator := hgenerator
  sent := by rw [hstats]
  dropped := by rw [hstats]
  resolved := ⟨[], by rw [outcomes, hjournal, List.nil_append, outcomes],
    fun _ hmem => absurd hmem List.not_mem_nil, hpending.map _⟩

/-- A world that goes on from itself rests. -/
theorem rests_refl (world : World σ k) : world.Rests world :=
  rests_of_still rfl rfl rfl rfl rfl (List.Perm.refl _)

/-- A world may rest for a while and then go on resting. -/
theorem Rests.trans (h : world.Rests middle) (h' : middle.Rests after) : world.Rests after where
  nodes := h'.nodes.trans h.nodes
  protocols := h'.protocols.trans h.protocols
  generator := h'.generator.trans h.generator
  sent := h'.sent.trans h.sent
  dropped := h'.dropped.trans h.dropped
  resolved := by
    obtain ⟨earlier, hearlier, hkinds, hserials⟩ := h.resolved
    obtain ⟨later, hlater, hkinds', hserials'⟩ := h'.resolved
    refine ⟨later ++ earlier, ?_, fun entry hmem => ?_, ?_⟩
    · rw [hlater, hearlier, List.append_assoc]
    · exact (List.mem_append.mp hmem).elim (hkinds' entry) (hkinds entry)
    · refine List.Perm.trans ?_ hserials
      rw [List.map_append, List.append_assoc]
      refine (List.perm_append_comm_assoc _ _ _).trans ?_
      exact hserials'.append_left _

/-- The nodes stay down. -/
theorem Rests.isDown (h : world.Rests after) (hdown : world.IsDown) : after.IsDown := by
  intro node hnode
  have hmem : node.unlinked ∈ world.nodes.map Node.unlinked := by
    rw [← h.nodes]
    exact List.mem_map_of_mem hnode
  obtain ⟨before, hbefore, heq⟩ := List.mem_map.mp hmem
  have hsame : before.unlinked.isDown = node.unlinked.isDown := congrArg Node.isDown heq
  exact hsame.symm.trans (hdown before hbefore)

/-- The nodes keep their names. -/
theorem Rests.names_eq (h : world.Rests after) :
    after.nodes.map (·.id) = world.nodes.map (·.id) := by
  have hmapped := congrArg (List.map fun node : Node => node.id) h.nodes
  rw [List.map_map, List.map_map] at hmapped
  exact hmapped

/-- No more messages are in transit than before. -/
theorem Rests.length_pending_le (h : world.Rests after) :
    after.pending.length ≤ world.pending.length := by
  obtain ⟨resolved, -, -, hserials⟩ := h.resolved
  have hlength := hserials.length_eq
  rw [List.length_append, List.length_map, List.length_map, List.length_map] at hlength
  omega

/-- In a world that accounts for its sends no more of them are in flight than before. -/
theorem Rests.inFlight_le (h : world.Rests after) (hbefore : Accounts [] world)
    (hafter : Accounts [] after) :
    after.network.stats.inFlight ≤ world.network.stats.inFlight := by
  rw [hafter.inFlight_eq, hbefore.inFlight_eq]
  exact h.length_pending_le

/-- In such a world a message that was in transit is delivered, undeliverable or still in transit, and
none is resolved twice. -/
theorem Rests.exists_resolved (h : world.Rests after) (haccounts : Accounts [] world) :
    ∃ resolved, after.outcomes = resolved ++ world.outcomes ∧
      (∀ entry ∈ resolved, entry.2 = .delivered ∨ entry.2 = .undeliverable) ∧
      (resolved.map (·.1) ++ after.pending.map (·.serial)).Perm (world.pending.map (·.serial)) ∧
      (resolved.map (·.1)).Nodup := by
  obtain ⟨resolved, houtcomes, hkinds, hserials⟩ := h.resolved
  have hnodup : (world.pending.map (·.serial)).Nodup :=
    (haccounts.serials.nodup_iff.mpr List.nodup_range).of_append_right
  refine ⟨resolved, houtcomes, fun entry hmem => ?_, hserials,
    (hserials.nodup_iff.mpr hnodup).of_append_left⟩
  cases hkind : entry.2 with
  | dropped => exact absurd hkind (hkinds entry hmem)
  | delivered => exact Or.inl rfl
  | undeliverable => exact Or.inr rfl

/-- A message that was ready to be delivered is counted first, and its outcome is written down last.
Whatever is in between, the world rests if it rests in between. -/
theorem Rests.record {ready : List Task} {network : Network σ} {parcel : Parcel} {event : Event}
    {outcome : Outcome} (h : ((world.withReady ready).withNetwork network).Rests middle)
    (hpending : world.pending.Perm (parcel :: (world.withReady ready).pending))
    (hgenerator : network.generator = world.network.generator)
    (hsent : network.stats.sent = world.network.stats.sent)
    (hdropped : network.stats.dropped = world.network.stats.dropped)
    (hevent : event.outcome? = some (parcel.serial, outcome)) (hkind : outcome ≠ .dropped) :
    world.Rests (middle.record event) where
  nodes := h.nodes
  protocols := h.protocols
  generator := h.generator.trans hgenerator
  sent := h.sent.trans hsent
  dropped := h.dropped.trans hdropped
  resolved := by
    obtain ⟨resolved, houtcomes, hkinds, hserials⟩ := h.resolved
    refine ⟨(parcel.serial, outcome) :: resolved, ?_, fun entry hmem => ?_, ?_⟩
    · have hrecorded : (middle.record event).outcomes =
          (parcel.serial, outcome) :: middle.outcomes := by
        simp only [outcomes, World.record, List.filterMap_cons, hevent]
      rw [hrecorded, houtcomes]
      rfl
    · rcases List.mem_cons.mp hmem with rfl | hmem
      · exact hkind
      · exact hkinds entry hmem
    · have hbefore : (world.pending.map (·.serial)).Perm
          (parcel.serial :: (world.withReady ready).pending.map (·.serial)) := hpending.map _
      exact (hserials.cons parcel.serial).trans hbefore.symm

variable [Random.Source σ]

/-- Whatever is done to a node that is down, the world rests. -/
theorem rests_acted (hdown : world.IsDown) (index : Nat) (deed : Deed) :
    world.Rests (world.acted index deed) := by
  cases hat : world.members[index]? with
  | none =>
    rw [acted_of_none hat]
    exact rests_refl world
  | some member =>
    have hmember : member.node ∈ world.nodes := List.mem_map_of_mem (List.mem_of_getElem? hat)
    obtain ⟨hnode, hprotocol, hsends⟩ :=
      Life.step_of_isDown (world.lifeOf member) world.wall deed (hdown _ hmember)
    rw [acted_of_some hat, hsends]
    refine ⟨?_, ?_, rfl, rfl, rfl, [], rfl, fun _ hmem => absurd hmem List.not_mem_nil,
      List.Perm.refl _⟩
    · obtain ⟨hlt, hget⟩ := List.getElem?_eq_some_iff.mp hat
      have hlt : index < (world.nodes.map Node.unlinked).length := by
        rwa [List.length_map, nodes, List.length_map]
      have hentry : ((world.lifeOf member).step world.wall deed).1.node.unlinked =
          (world.nodes.map Node.unlinked)[index] := by
        simp only [hnode, nodes, List.getElem_map, hget]
        rfl
      have hset : ((world.replace index
          { member with node := ((world.lifeOf member).step world.wall deed).1.node }
          ((world.lifeOf member).step world.wall deed).1.protocol).sendAll []).nodes.map
            Node.unlinked = (world.nodes.map Node.unlinked).set index
              ((world.lifeOf member).step world.wall deed).1.node.unlinked := by
        simp only [sendAll, List.foldl_nil, replace, nodes, List.map_set]
      rw [hset, hentry]
      exact List.set_getElem_self hlt
    · rw [hprotocol]
      exact Vector.set_getElem_self member.protocol.isLt

/-- A message that is delivered to nodes that are down is resolved, and that is all. -/
theorem rests_deliver (hdown : world.IsDown) {position : Nat} {parcel : Parcel}
    (hat : world.agenda.ready[position]? = some (.parcel 0 parcel)) :
    world.Rests ((world.withReady (world.agenda.ready.eraseIdx position)).deliver parcel) := by
  have hpending := perm_pending_withReady hat
  rcases (world.withReady (world.agenda.ready.eraseIdx position)).deliver_cases parcel with
    ⟨-, hdeliver⟩ | ⟨_, _, -, -, hdeliver⟩ | ⟨index, _, -, -, hdeliver⟩
  · rw [hdeliver]
    exact Rests.record (rests_refl _) hpending rfl rfl rfl rfl Outcome.noConfusion
  · rw [hdeliver]
    exact Rests.record (rests_refl _) hpending rfl rfl rfl rfl Outcome.noConfusion
  · have hcounted : ((world.withReady (world.agenda.ready.eraseIdx position)).withNetwork
        world.network.countDelivered).IsDown := hdown
    rw [hdeliver]
    exact Rests.record (rests_acted hcounted index _) hpending rfl rfl rfl rfl Outcome.noConfusion

/-- Whatever task has its turn, the world rests. -/
theorem rests_takeTurn (hdown : world.IsDown) (position : Nat) :
    world.Rests (world.takeTurn position) := by
  cases hat : world.agenda.ready[position]? with
  | none =>
    simp only [takeTurn, hat]
    exact rests_refl world
  | some task =>
    have hpending := perm_pending_withReady hat
    simp only [takeTurn, hat]
    cases task with
    | parcel delay parcel =>
      cases delay with
      | zero => exact rests_deliver hdown hat
      | succ delay =>
        -- The message stays in transit: it leaves the queue for a timer.
        refine rests_of_still rfl rfl rfl rfl rfl ?_
        exact (perm_pending_schedule _ (delay + 1) (.parcel 0 parcel)).trans hpending.symm
    | rounds interval =>
      have hall : (world.withReady (world.agenda.ready.eraseIdx position)).members.all
          (·.node.isDown) = true :=
        List.all_eq_true.mpr fun member hmember => hdown _ (List.mem_map_of_mem hmember)
      rw [perform, roundOfAll, if_pos hall]
      exact rests_of_still rfl rfl rfl rfl rfl hpending.symm

/-- Whatever internal move is made, the world rests. -/
theorem rests_step (hdown : world.IsDown) {move : Move k} (h : move.isInternal = true) :
    world.Rests (world.step move) := by
  cases move with
  | broadcast index id kind payload =>
    rw [step, afterwards_broadcast]
    exact rests_acted hdown index _
  | gossipRound index =>
    rw [step, afterwards_gossipRound]
    exact rests_acted hdown index _
  | addPeer index peer =>
    rw [step, world.modifyNode_eq_acted index _ (.addPeer peer) fun _ _ => rfl]
    exact rests_acted hdown index _
  | shutdown index =>
    rw [step, world.modifyNode_eq_acted index _ .shutdown fun _ _ => rfl]
    exact rests_acted hdown index _
  | unregister _ | setLatency _ | setJitter _ | setClock _ | close | pass _ | setWall _ =>
    exact rests_of_still rfl rfl rfl rfl rfl (List.Perm.refl _)
  | setDropRate rate =>
    simp only [step, Network.setDropRate, NetworkConfig.checkDropRate]
    split
    · exact rests_of_still rfl rfl rfl rfl rfl (List.Perm.refl _)
    · exact rests_refl world
  | startRounds interval =>
    exact rests_of_still rfl rfl rfl rfl rfl (perm_pending_schedule world interval _)
  | stopRounds =>
    exact rests_of_still rfl rfl rfl rfl rfl (List.Perm.of_eq (pending_stopRounds world))
  | turn position => exact rests_takeTurn hdown position
  | fire => exact rests_of_still rfl rfl rfl rfl rfl (List.Perm.of_eq (pending_fire world))
  | send | receive | join | register => cases h

/-- Whatever internal moves are made one after the other, the world rests. -/
theorem rests_run (hdown : world.IsDown) {moves : List (Move k)}
    (h : ∀ move ∈ moves, move.isInternal = true) : world.Rests (world.run moves) := by
  induction moves generalizing world with
  | nil => exact rests_refl world
  | cons move rest ih =>
    have hfirst := rests_step hdown (h move List.mem_cons_self)
    exact hfirst.trans (ih (hfirst.isDown hdown) fun other hmem =>
      h other (List.mem_cons_of_mem move hmem))

end World

end Epidemic
