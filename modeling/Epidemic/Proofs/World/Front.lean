import Epidemic.Proofs.World.Arrivals

/-!
# How far a message has come

Over a reliable network on which every send takes the same time, a message goes from node to node as
a wave. Where it is, it has come from its origin by some number of hops, each of which took that
time. And if a node can be reached by some number of hops, the message is there at the latest when
so many hops have passed. It does not matter whether nodes send it again, or back to where it came
from: the front of the wave is kept by whatever a node does.
-/

namespace Epidemic

/-- A message that was made at a time. -/
structure Emission where
  /-- The time, in milliseconds. -/
  time : Nat
  /-- The message. -/
  message : Message

/-- Whether a name is reached from the origin by some number of hops, each from a node to one of its
peers. -/
inductive Wiring.Reaches (wiring : Wiring) (origin : NodeId) : NodeId → Nat → Prop where
  /-- No hop leaves the origin. -/
  | refl : Reaches wiring origin origin 0
  /-- One hop more. -/
  | hop {name peer : NodeId} {peers : List NodeId} {hops : Nat}
    (hreach : Reaches wiring origin name hops) (hentry : (name, peers) ∈ wiring)
    (hpeer : peer ∈ peers) : Reaches wiring origin peer (hops + 1)

namespace Emission

/-- The time at which the message has made some number of hops, each of which takes a delay. -/
def due (emission : Emission) (delay hops : Nat) : Nat := emission.time + hops * delay

/-- One hop more takes the delay once more. -/
theorem due_succ (emission : Emission) (delay hops : Nat) :
    emission.due delay (hops + 1) = emission.due delay hops + delay := by
  rw [due, due, Nat.succ_mul, Nat.add_assoc]

/-- Whether the message can have come to a name by a time. -/
def Comes (emission : Emission) (wiring : Wiring) (delay : Nat) (name : NodeId) (time : Nat) :
    Prop :=
  ∃ hops, wiring.Reaches emission.message.origin name hops ∧ emission.due delay hops ≤ time

/-- What can have come by a time can have come by a later one. -/
theorem Comes.mono {emission : Emission} {wiring : Wiring} {delay : Nat} {name : NodeId}
    {time later : Nat} (h : emission.Comes wiring delay name time) (hle : time ≤ later) :
    emission.Comes wiring delay name later := by
  obtain ⟨hops, hreach, hdue⟩ := h
  exact ⟨hops, hreach, Nat.le_trans hdue hle⟩

/-- From a node the message can come to each of its peers a delay later. -/
theorem Comes.hop {emission : Emission} {wiring : Wiring} {delay : Nat} {name peer : NodeId}
    {peers : List NodeId} {time : Nat} (h : emission.Comes wiring delay name time)
    (hentry : (name, peers) ∈ wiring) (hpeer : peer ∈ peers) :
    emission.Comes wiring delay peer (time + delay) := by
  obtain ⟨hops, hreach, hdue⟩ := h
  refine ⟨hops + 1, hreach.hop hentry hpeer, ?_⟩
  rw [due_succ]
  exact Nat.add_le_add_right hdue delay

end Emission

namespace World

variable {σ : Type} {k : Nat} {wiring : Wiring} {made : List Message} {world after : World σ k}
  {delay : Nat} {emission : Emission}

/-! ## One place for a name -/

/-- A name has one place in the wiring. -/
theorem Flood.place_eq (h : world.Flood wiring made []) {place place' : Nat}
    {entry entry' : NodeId × List NodeId} (hat : wiring[place]? = some entry)
    (hat' : wiring[place']? = some entry') (hname : entry.1 = entry'.1) : place = place' := by
  have hendpoint := h.registry place entry hat
  rw [hname, h.registry place' entry' hat'] at hendpoint
  cases hendpoint
  rfl

/-- A node of a name is the only one. -/
theorem Flood.member_eq (h : world.Flood wiring made []) {member other : Member k}
    (hmember : member ∈ world.members) (hother : other ∈ world.members)
    (hname : member.node.id = other.node.id) : member = other := by
  obtain ⟨place, hat⟩ := List.mem_iff_getElem?.mp hmember
  obtain ⟨place', hat'⟩ := List.mem_iff_getElem?.mp hother
  have hentry {place : Nat} {member : Member k} (hat : world.members[place]? = some member) :
      wiring[place]? = some (member.node.id, member.node.peers) := by
    rw [← h.nodes, World.wiring, List.getElem?_map, hat]
    rfl
  rw [h.place_eq (hentry hat) (hentry hat') hname, hat'] at hat
  exact (Option.some.inj hat).symm

/-- What is held under the name of a node was seen by this node. -/
theorem Flood.seen_of_holds (h : world.Flood wiring made []) {member : Member k}
    (hmember : member ∈ world.members) {id : MessageId} (hholds : world.Holds member.node.id id) :
    id ∈ member.node.seen := by
  obtain ⟨holder, hholder, hname, hseen⟩ := hholds
  rwa [h.member_eq hholder hmember hname] at hseen

/-- A node has its place in the wiring. -/
theorem Flood.entry_mem (h : world.Flood wiring made []) {member : Member k}
    (hmember : member ∈ world.members) : (member.node.id, member.node.peers) ∈ wiring := by
  rw [← h.nodes]
  exact List.mem_map_of_mem hmember

/-- The peers that a node has in the wiring are its peers. -/
theorem Flood.peers_eq (h : world.Flood wiring made []) {member : Member k}
    (hmember : member ∈ world.members) {peers : List NodeId}
    (hentry : (member.node.id, peers) ∈ wiring) : member.node.peers = peers := by
  rw [← h.nodes] at hentry
  obtain ⟨other, hother, heq⟩ := List.mem_map.mp hentry
  obtain ⟨hname, hpeers⟩ := Prod.mk.inj heq
  rw [h.member_eq hmember hother hname.symm]
  exact hpeers

/-! ## The front of a wave -/

/-- How far the message of a broadcast has come, and how far it will come at least. -/
structure Front (wiring : Wiring) (delay : Nat) (emission : Emission) (world : World σ k) :
    Prop where
  /-- Where the message is held, it can have come by now. -/
  early : ∀ name, world.Holds name emission.message.id →
    emission.Comes wiring delay name world.agenda.now
  /-- Where it will arrive, it can have come by then. -/
  coming : ∀ arrival ∈ world.arrivals, arrival.2.message.id = emission.message.id →
    emission.Comes wiring delay arrival.2.target arrival.1
  /-- The peers of a node that has seen it hold it, or it arrives there when it is due. -/
  spread : ∀ member ∈ world.members, emission.message.id ∈ member.node.seen →
    ∀ hops, wiring.Reaches emission.message.origin member.node.id hops →
      ∀ peer ∈ member.node.peers, world.Holds peer emission.message.id ∨
        ∃ arrival ∈ world.arrivals, arrival.2.target = peer ∧
          arrival.2.message.id = emission.message.id ∧
          arrival.1 ≤ emission.due delay (hops + 1)

/-- If time passes and nothing else happens to nodes and messages, the front is where it was. -/
theorem Front.still (h : world.Front wiring delay emission)
    (hmembers : after.members = world.members) (hnow : world.agenda.now ≤ after.agenda.now)
    (harrivals : after.arrivals.Perm world.arrivals) : after.Front wiring delay emission where
  early name hholds := (h.early name ((holds_congr hmembers).mp hholds)).mono hnow
  coming arrival hmem := h.coming arrival (harrivals.mem_iff.mp hmem)
  spread member hmember hseen hops hreach peer hpeer := by
    rw [hmembers] at hmember
    rw [holds_congr hmembers]
    refine (h.spread member hmember hseen hops hreach peer hpeer).imp_right ?_
    rintro ⟨arrival, hmem, hcarries⟩
    exact ⟨arrival, harrivals.mem_iff.mpr hmem, hcarries⟩

/-- A message that is not held anywhere and in transit nowhere has no front yet. -/
theorem front_of_fresh (hholds : ∀ name, ¬world.Holds name emission.message.id)
    (htransit : ∀ envelope ∈ world.transit, envelope.message.id ≠ emission.message.id) :
    world.Front wiring delay emission where
  early name hheld := absurd hheld (hholds name)
  coming arrival hmem hid := by
    refine absurd hid (htransit _ ?_)
    rw [← map_arrivals]
    exact List.mem_map_of_mem hmem
  spread member hmember hseen := absurd ⟨member, hmember, rfl, hseen⟩ (hholds member.node.id)

/-- If nothing arrives before a time, the message is held wherever it was due earlier. -/
theorem Front.holds_of_due (h : world.Front wiring delay emission)
    (hflood : world.Flood wiring made [])
    (hsource : world.Holds emission.message.origin emission.message.id) {bound : Nat}
    (hwait : ∀ arrival ∈ world.arrivals, bound ≤ arrival.1) {name : NodeId} {hops : Nat}
    (hreach : wiring.Reaches emission.message.origin name hops)
    (hdue : emission.due delay hops < bound) : world.Holds name emission.message.id := by
  induction hreach with
  | refl => exact hsource
  | @hop name peer peers hops hreach hentry hpeer ih =>
    have hbefore : emission.due delay hops < bound := by
      rw [Emission.due_succ] at hdue
      omega
    obtain ⟨member, hmember, rfl, hseen⟩ := ih hbefore
    rw [← hflood.peers_eq hmember hentry] at hpeer
    rcases h.spread member hmember hseen hops hreach peer hpeer with hheld | hcoming
    · exact hheld
    · obtain ⟨arrival, hmem, -, -, hle⟩ := hcoming
      have hlate := hwait arrival hmem
      omega

/-! ## A node acts -/

section Act

variable {index : Nat} {member : Member k} {node : Node} {sends : List Envelope}
  (hat : world.members[index]? = some member)
  (hspreads : member.node.Spreads made world.Holds node sends)
  (hmembers : after.members = world.members.set index { member with node })

include hat hspreads hmembers

/-- What was held before a node acts is held afterwards. -/
theorem Holds.set {name : NodeId} {id : MessageId} (h : world.Holds name id) :
    after.Holds name id := by
  have hreplaced := h.replace hat hspreads.id hspreads.seen (world.protocolOf member)
  exact (holds_congr hmembers).mpr hreplaced

/-- A message is held by a node that has acted as soon as it has seen it. -/
theorem holds_set_self {id : MessageId} (hid : id ∈ node.seen) : after.Holds member.node.id id := by
  have hreplaced := holds_replace_self hat (world.protocolOf member) hid
  rw [hspreads.id] at hreplaced
  exact (holds_congr hmembers).mpr hreplaced

/-- When a node has acted, its sends arrive a delay later, and the messages that it has taken in are
in transit no longer, the front of a wave is where it is to be, provided that the node has learned
the message, if it has, when it was due. -/
theorem Front.act (h : world.Front wiring delay emission)
    (hentry : (member.node.id, member.node.peers) ∈ wiring)
    (hnow : after.agenda.now = world.agenda.now) (rest : List (Nat × Envelope))
    (harrivals : after.arrivals.Perm
      (sends.map (fun envelope => (world.agenda.now + delay, envelope)) ++ rest))
    (hrest : ∀ arrival ∈ rest, arrival ∈ world.arrivals)
    (htaken : ∀ arrival ∈ world.arrivals, arrival ∈ rest ∨
      arrival.2.target = member.node.id ∧ arrival.2.message.id ∈ node.seen)
    (hlearned : emission.message.id ∈ node.seen → emission.message.id ∉ member.node.seen →
      emission.Comes wiring delay member.node.id world.agenda.now ∧
        ∀ hops, wiring.Reaches emission.message.origin member.node.id hops →
          world.agenda.now ≤ emission.due delay hops) :
    after.Front wiring delay emission := by
  have hself : emission.message.id ∈ node.seen →
      emission.Comes wiring delay member.node.id world.agenda.now := by
    intro hseen
    by_cases hknown : emission.message.id ∈ member.node.seen
    · exact h.early _ ⟨member, List.mem_of_getElem? hat, rfl, hknown⟩
    · exact (hlearned hseen hknown).1
  have hkept : ∀ arrival ∈ rest, arrival ∈ after.arrivals := fun arrival hmem =>
    harrivals.mem_iff.mpr (List.mem_append_right _ hmem)
  -- What a node had seen before, its peers hold, or it still arrives there or was just taken in.
  have hbefore : ∀ before ∈ world.members, emission.message.id ∈ before.node.seen →
      ∀ hops, wiring.Reaches emission.message.origin before.node.id hops →
        ∀ peer ∈ before.node.peers, after.Holds peer emission.message.id ∨
          ∃ arrival ∈ after.arrivals, arrival.2.target = peer ∧
            arrival.2.message.id = emission.message.id ∧
            arrival.1 ≤ emission.due delay (hops + 1) := by
    intro before hmember hseen hops hreach peer hpeer
    rcases h.spread before hmember hseen hops hreach peer hpeer with hheld | hcoming
    · exact Or.inl (hheld.set hat hspreads hmembers)
    · obtain ⟨arrival, hmem, htarget, hid, hle⟩ := hcoming
      rcases htaken arrival hmem with hstill | ⟨hself, hseen⟩
      · exact Or.inr ⟨arrival, hkept arrival hstill, htarget, hid, hle⟩
      · rw [hid] at hseen
        rw [← htarget, hself]
        exact Or.inl (holds_set_self hat hspreads hmembers hseen)
  refine ⟨fun name hholds => ?_, fun arrival hmem hid => ?_, ?_⟩
  · obtain ⟨holder, hholder, rfl, hseen⟩ := hholds
    rw [hnow]
    rw [hmembers] at hholder
    rcases List.mem_or_eq_of_mem_set hholder with hold | rfl
    · exact h.early _ ⟨holder, hold, rfl, hseen⟩
    · have hcomes := hself hseen
      rwa [← hspreads.id] at hcomes
  · rcases List.mem_append.mp (harrivals.mem_iff.mp hmem) with hsent | hold
    · obtain ⟨envelope, henvelope, rfl⟩ := List.mem_map.mp hsent
      obtain ⟨-, htarget, -, hseen⟩ := hspreads.sent envelope henvelope
      rw [hid] at hseen
      exact (hself hseen).hop hentry htarget
    · exact h.coming arrival (hrest arrival hold) hid
  · intro other hother hseen hops hreach peer hpeer
    rw [hmembers] at hother
    rcases List.mem_or_eq_of_mem_set hother with hold | rfl
    · exact hbefore other hold hseen hops hreach peer hpeer
    · have hreach : wiring.Reaches emission.message.origin member.node.id hops := by
        rwa [← hspreads.id]
      have hpeer : peer ∈ member.node.peers := by rwa [← hspreads.peers]
      by_cases hknown : emission.message.id ∈ member.node.seen
      · exact hbefore member (List.mem_of_getElem? hat) hknown hops hreach peer hpeer
      · rcases hspreads.covers _ hseen hknown peer hpeer with hheld | ⟨envelope, hsent, hcarry⟩
        · exact Or.inl (hheld.set hat hspreads hmembers)
        · refine Or.inr ⟨(world.agenda.now + delay, envelope), ?_, hcarry.1, hcarry.2, ?_⟩
          · exact harrivals.mem_iff.mpr (List.mem_append_left _ (List.mem_map_of_mem hsent))
          · rw [Emission.due_succ]
            exact Nat.add_le_add_right ((hlearned hseen hknown).2 hops hreach) delay

end Act

end World

end Epidemic
