import Epidemic.Proofs.Node.Rumors
import Epidemic.Proofs.World.Knowledge

/-!
# Traffic is confined to peers

If nobody meddles from outside, every message in transit is on its way from a node that has seen it
to a peer of this node. This and what nodes keep for rumor rounds are kept up together: a rumor round
sends what is kept, and what is in transit is kept by the node that accepts it.

Which nodes there are, and who is whose peer, is changed by nothing but a new peer.
-/

namespace Epidemic

/-- Whether a move gives a node a peer. -/
def Move.addsPeer {k : Nat} : Move k → Bool
  | .addPeer _ _ => true
  | _ => false

namespace World

variable {σ : Type} {k : Nat}

/-- Whether an envelope is addressed by a node that has seen its message to a peer of the node. -/
def Addresses (world : World σ k) (envelope : Envelope) : Prop :=
  ∃ member ∈ world.members, member.node.id = envelope.sender ∧
    envelope.message.id ∈ member.node.seen ∧ envelope.target ∈ member.node.peers

/-- Whether traffic is confined: nodes keep what they have seen, and send it to their peers. -/
structure Confined (world : World σ k) : Prop where
  /-- Every node keeps for rumor rounds only what it has seen, each message once. -/
  keeps : ∀ member ∈ world.members, member.node.KeepsSeen
  /-- Every message in transit goes from a node that has seen it to a peer of the node. -/
  carried : ∀ envelope ∈ world.transit, world.Addresses envelope

variable [Random.Source σ] {made more : List Message} {others : List Batch} {world after : World σ k}

section Deeds

variable {index : Nat} {member : Member k} {deed : Deed}
  (hat : world.members[index]? = some member)
  (hmembers : after.members = world.members.set index
    { member with node := ((world.lifeOf member).step world.wall deed).1.node })

include hat hmembers

/-- What a node sends is addressed by it. -/
theorem addresses_sends (hkeeps : member.node.KeepsSeen) {envelope : Envelope}
    (hsent : envelope ∈ ((world.lifeOf member).step world.wall deed).2) :
    after.Addresses envelope := by
  obtain ⟨hlt, -⟩ := List.getElem?_eq_some_iff.mp hat
  obtain ⟨hsender, htarget, hseen⟩ := Life.addressed_step (world.lifeOf member) hkeeps hsent
  have hid := (Life.course_step (world.lifeOf member) world.wall deed).keeps.1
  refine ⟨{ member with node := ((world.lifeOf member).step world.wall deed).1.node }, ?_,
    hid.trans hsender.symm, hseen, Life.mem_peers_step _ _ _ htarget⟩
  rw [hmembers]
  exact List.mem_set hlt _

/-- What was addressed by a node before something is done to it, or to another one, still is. -/
theorem Addresses.kept {envelope : Envelope} (h : world.Addresses envelope) :
    after.Addresses envelope := by
  obtain ⟨sender, hsender, hid, hseen, htarget⟩ := h
  obtain ⟨place, hplace⟩ := List.mem_iff_getElem?.mp hsender
  by_cases heq : place = index
  · rw [heq, hat] at hplace
    cases hplace
    obtain ⟨hlt, -⟩ := List.getElem?_eq_some_iff.mp hat
    have hcourse := Life.course_step (world.lifeOf member) world.wall deed
    refine ⟨{ member with node := ((world.lifeOf member).step world.wall deed).1.node }, ?_,
      hcourse.keeps.1.trans hid, ?_, Life.mem_peers_step _ _ _ htarget⟩
    · rw [hmembers]
      exact List.mem_set hlt _
    · rcases hcourse.seen_eq with hsame | ⟨other, -, hmore⟩
      · rw [hsame]
        exact hseen
      · rw [hmore]
        exact List.mem_cons_of_mem other hseen
  · refine ⟨sender, List.mem_of_getElem? (i := place) ?_, hid, hseen, htarget⟩
    rw [hmembers, List.getElem?_set_ne fun h => heq h.symm]
    exact hplace

end Deeds

/-- Every change keeps traffic confined, if the broadcasts have different ids. -/
theorem Confined.change (h : world.Confined) (hknowledge : world.Knowledge made)
    (hdistinct : ((made ++ more).map (·.id)).Nodup) (hchange : world.Change more others after) :
    after.Confined := by
  have hstill : after.members = world.members →
      (∀ envelope ∈ after.transit, envelope ∈ [] ∨ envelope ∈ world.transit) → after.Confined := by
    intro hmembers htransit
    refine ⟨fun member hmember => h.keeps member (hmembers ▸ hmember), fun envelope hmem => ?_⟩
    have hbefore := (htransit envelope hmem).resolve_left List.not_mem_nil
    rw [Addresses, hmembers]
    exact h.carried envelope hbefore
  cases hchange with
  | still hmembers hbooks => exact hstill hmembers hbooks.transit
  | unheard _ _ hmembers hbooks => exact hstill hmembers hbooks.transit
  | @deed _ index member deed hat hoffered hmembers hbooks =>
    have hmember := List.mem_of_getElem? hat
    refine ⟨fun other hother => ?_, fun envelope hmem => ?_⟩
    · rw [hmembers] at hother
      rcases List.mem_or_eq_of_mem_set hother with hold | rfl
      · exact h.keeps other hold
      · refine Life.keepsSeen_step (world.lifeOf member) (h.keeps member hmember)
          fun message horiginated => ?_
        exact hknowledge.fresh hdistinct hmember (Option.mem_toList.mpr horiginated)
    · rcases hbooks.transit envelope hmem with hsent | hbefore
      · exact addresses_sends hat hmembers (h.keeps member hmember) hsent
      · exact (h.carried envelope hbefore).kept hat hmembers

/-- So does every passage. -/
theorem Confined.passage (h : world.Confined) (hknowledge : world.Knowledge made)
    (hdistinct : ((made ++ more).map (·.id)).Nodup) (hpassage : world.Passage more others after) :
    after.Confined :=
  (hpassage.preserves (fun made _ world => world.Knowledge made ∧ world.Confined) []
    (fun hboth hdistinct hchange => ⟨hboth.1.change hdistinct hchange,
      hboth.2.change hboth.1 hdistinct hchange⟩) hdistinct ⟨hknowledge, h⟩).2

/-! ## Peers stay -/

omit [Random.Source σ] in
/-- Who is whose peer depends on the members alone. -/
theorem wiring_congr (h : after.members = world.members) : after.wiring = world.wiring := by
  rw [wiring, h, wiring]

/-- Nothing that is done to a node changes the wiring, unless it gets a peer. -/
theorem wiring_acted (world : World σ k) (index : Nat) {deed : Deed}
    (h : ∀ peer, deed ≠ .addPeer peer) : (world.acted index deed).wiring = world.wiring := by
  cases hat : world.members[index]? with
  | none => rw [acted_of_none hat]
  | some member =>
    have hid := (Life.course_step (world.lifeOf member) world.wall deed).keeps.1
    rw [acted_of_some hat, wiring_congr (sendAll_spec _ _).1]
    exact wiring_replace hat hid (Life.peers_step _ _ h) _

/-- A delivery does not change the wiring. -/
theorem wiring_deliver (world : World σ k) (parcel : Parcel) :
    (world.deliver parcel).wiring = world.wiring := by
  rcases world.deliver_cases parcel with
    ⟨-, hdeliver⟩ | ⟨_, _, -, -, hdeliver⟩ | ⟨index, _, -, -, hdeliver⟩
  · rw [hdeliver]
    exact wiring_congr rfl
  · rw [hdeliver]
    exact wiring_congr rfl
  · rw [hdeliver]
    exact wiring_acted (world.withNetwork world.network.countDelivered) index
      fun _ => Deed.noConfusion

/-- Rumor rounds do not change the wiring. -/
theorem wiring_roundOf (world : World σ k) (indexes : List Nat) :
    (world.roundOf indexes).wiring = world.wiring := by
  induction indexes generalizing world with
  | nil => rfl
  | cons index rest ih =>
    have hround : (world.acted index .gossipRound).wiring = world.wiring :=
      wiring_acted _ _ fun _ => Deed.noConfusion
    rcases world.roundOf_cons index rest with ⟨-, heq⟩ | ⟨_, -, heq⟩
    · rw [heq]
      exact ih world
    · rw [heq]
      exact (ih _).trans hround

/-- The turn of a task does not change the wiring. -/
theorem wiring_takeTurn (world : World σ k) (position : Nat) :
    (world.takeTurn position).wiring = world.wiring := by
  unfold takeTurn
  split
  · rfl
  · rename_i task _
    cases task with
    | parcel delay parcel =>
      cases delay with
      | zero => exact wiring_deliver _ parcel
      | succ delay => exact wiring_congr rfl
    | rounds interval =>
      rw [perform, roundOfAll]
      split
      · exact wiring_congr rfl
      · exact wiring_roundOf (world.withReady (world.agenda.ready.eraseIdx position)) _

/-- No internal move changes the wiring, unless it gives a node a peer. -/
theorem wiring_step (world : World σ k) {move : Move k} (h : move.isInternal = true)
    (hpeer : move.addsPeer = false) : (world.step move).wiring = world.wiring := by
  cases move with
  | broadcast index id kind payload =>
    rw [step, afterwards_broadcast]
    exact wiring_acted _ _ fun _ => Deed.noConfusion
  | gossipRound index =>
    rw [step, afterwards_gossipRound]
    exact wiring_acted _ _ fun _ => Deed.noConfusion
  | shutdown index =>
    rw [step, world.modifyNode_eq_acted index _ .shutdown fun _ _ => rfl]
    exact wiring_acted _ _ fun _ => Deed.noConfusion
  | turn position => exact wiring_takeTurn world position
  | setDropRate rate =>
    simp only [step, Network.setDropRate, NetworkConfig.checkDropRate]
    split <;> exact wiring_congr rfl
  | addPeer => cases hpeer
  | send | receive | join | register => cases h
  | _ => exact wiring_congr rfl

/-- Nor does a run of such moves. -/
theorem wiring_run (world : World σ k) {moves : List (Move k)}
    (h : ∀ move ∈ moves, move.isInternal = true ∧ move.addsPeer = false) :
    (world.run moves).wiring = world.wiring := by
  have hstep : ∀ later : World σ k, ∀ move ∈ moves, later.wiring = world.wiring →
      (later.step move).wiring = world.wiring := fun later move hmem hsame =>
    (later.wiring_step (h move hmem).1 (h move hmem).2).trans hsame
  exact run_preserves hstep rfl

end World

end Epidemic
