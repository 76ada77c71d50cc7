import Epidemic.Proofs.Node.Budget
import Epidemic.Proofs.World.Books
import Epidemic.Proofs.World.Flooding

/-!
# What the moves of a world come down to

As long as nobody meddles from outside, and no endpoint is added, every move comes down to a series
of changes of three kinds: nothing happens to the nodes; something is done to one of them, which
may be that it is given a message that was in transit; or a message arrives where there is no node.
An invariant that every change keeps is kept by every run, so later proofs need not look into the
moves.

Along with the changes go the messages of the broadcasts that live nodes make and the batches that
nodes hand over.
-/

namespace Epidemic

namespace Move

variable {k : Nat}

/-- Whether a move is neither a send nor a delivery from outside and adds no endpoint. -/
def isInternal : Move k → Bool
  | .send _ | .receive _ _ _ | .join _ _ | .register _ _ => false
  | _ => true

/-- The passage of time is internal. -/
theorem isInternal_of_isTick {move : Move k} (h : move.isTick = true) : move.isInternal = true := by
  cases move with
  | turn _ | fire | pass _ => rfl
  | _ => cases h

end Move

namespace Life

variable {π : Type} [Policy π]

/-- What a node makes of a message that it is given. -/
def reception? (life : Life π) (now : Nat) : Deed → Option Reception
  | .receive message sender =>
    some (life.node.receive life.protocol life.linked now message sender).result
  | _ => none

end Life

namespace World

variable {σ : Type} {k : Nat}

/-- The life that a member leads in a world. -/
def lifeOf (world : World σ k) (member : Member k) : Life (Protocol σ) :=
  ⟨member.node, world.protocolOf member, world.network.isOpen⟩

/-- The message of a broadcast, if it is made by a live node that there is. -/
def originatedAt (world : World σ k) (index : Nat) (deed : Deed) : List Message :=
  match world.members[index]? with
  | none => []
  | some member => ((world.lifeOf member).originated? world.wall deed).toList

/-- What makes no broadcast of any node makes none. -/
theorem originatedAt_eq_nil {world : World σ k} {index : Nat} {deed : Deed}
    (h : ∀ (life : Life (Protocol σ)) (now : Nat), life.originated? now deed = none) :
    world.originatedAt index deed = [] := by
  rw [originatedAt]
  split
  · rfl
  · rw [h]
    rfl

/-- The message of the broadcast that is made by a move. -/
def originatedBy (world : World σ k) : Move k → List Message
  | .broadcast index id kind payload => world.originatedAt index (.broadcast id kind payload)
  | _ => []

variable [Random.Source σ]

/-- The batches that a node hands over when something is done to it. -/
def batchesAt (world : World σ k) (index : Nat) (deed : Deed) : List Batch :=
  match world.members[index]? with
  | none => []
  | some member => (world.lifeOf member).batches world.wall deed

/-- What makes no node hand over batches makes none do so. -/
theorem batchesAt_eq_nil {world : World σ k} {index : Nat} {deed : Deed}
    (h : ∀ (life : Life (Protocol σ)) (now : Nat), life.batches now deed = []) :
    world.batchesAt index deed = [] := by
  rw [batchesAt]
  split
  · rfl
  · exact h _ _

/-- The batches of the rumor rounds of several nodes. -/
def batchesOfRounds (world : World σ k) : List Nat → List Batch
  | [] => []
  | index :: rest =>
    world.batchesAt index .gossipRound ++ (world.roundOf [index]).batchesOfRounds rest

/-- The batches that are handed over in the turn of a task. -/
def batchesOfTask (world : World σ k) : Task → List Batch
  | .parcel 0 parcel =>
    match world.network.endpoint? parcel.envelope.target with
    | some (.node index) =>
      world.batchesAt index (.receive parcel.envelope.message parcel.envelope.sender)
    | _ => []
  | .parcel (_ + 1) _ => []
  | .rounds _ =>
    if world.members.all (·.node.isDown) then []
    else world.batchesOfRounds (List.range world.members.length)

/-- The batches that are handed over by a move. -/
def batchesBy (world : World σ k) : Move k → List Batch
  | .broadcast index id kind payload => world.batchesAt index (.broadcast id kind payload)
  | .gossipRound index => world.batchesAt index .gossipRound
  | .turn position =>
    match world.agenda.ready[position]? with
    | none => []
    | some task => (world.withReady (world.agenda.ready.eraseIdx position)).batchesOfTask task
  | _ => []

/-- The messages of the broadcasts that live nodes make in a run. -/
def broadcasts (world : World σ k) : List (Move k) → List Message
  | [] => []
  | move :: rest => world.originatedBy move ++ (world.step move).broadcasts rest

/-- The batches that nodes hand over in a run. -/
def batches (world : World σ k) : List (Move k) → List Batch
  | [] => []
  | move :: rest => world.batchesBy move ++ (world.step move).batches rest

/-! ## Changes -/

/-- One change of a world, with the messages of the broadcasts made by it and the batches handed
over. -/
inductive Change (world : World σ k) : List Message → List Batch → World σ k → Prop where
  /-- Nothing happens to the nodes. -/
  | still {after : World σ k} (hmembers : after.members = world.members)
    (hbooks : world.Extends [] [] after) : Change world [] [] after
  /-- Something is done to a node. If it is given a message, this was in transit. -/
  | deed {after : World σ k} {index : Nat} {member : Member k} {deed : Deed}
    (hat : world.members[index]? = some member)
    (hoffered : ∀ message sender, deed = .receive message sender →
      ∃ envelope ∈ world.transit, envelope.message = message)
    (hmembers : after.members = world.members.set index
      { member with node := ((world.lifeOf member).step world.wall deed).1.node })
    (hbooks : world.Extends ((world.lifeOf member).step world.wall deed).2
      ((world.lifeOf member).reception? world.wall deed).toList after) :
    Change world ((world.lifeOf member).originated? world.wall deed).toList
      ((world.lifeOf member).batches world.wall deed) after
  /-- A message arrives at an endpoint that is no node. -/
  | unheard {after : World σ k} {entry : NodeId × Endpoint} {reception : Reception}
    (hentry : entry ∈ world.network.registry)
    (hnobody : ∀ index, entry.2 = .node index → world.members[index]? = none)
    (hmembers : after.members = world.members) (hbooks : world.Extends [] [reception] after) :
    Change world [] [] after

/-- Several changes, one after the other. -/
inductive Passage (world : World σ k) : List Message → List Batch → World σ k → Prop where
  /-- No change. -/
  | refl : Passage world [] [] world
  /-- One change more. -/
  | step {made more : List Message} {batches others : List Batch} {middle after : World σ k}
    (hpassage : Passage world made batches middle) (hchange : middle.Change more others after) :
    Passage world (made ++ more) (batches ++ others) after

variable {world middle after : World σ k} {made more : List Message} {batches others : List Batch}

/-- A change is a passage. -/
theorem Change.passage (h : world.Change made batches after) : world.Passage made batches after :=
  .step .refl h

/-- Passages may follow one another. -/
theorem Passage.trans (h : world.Passage made batches middle)
    (h' : middle.Passage more others after) :
    world.Passage (made ++ more) (batches ++ others) after := by
  induction h' with
  | refl =>
    rw [List.append_nil, List.append_nil]
    exact h
  | step _ hchange ih =>
    rw [← List.append_assoc, ← List.append_assoc]
    exact ih.step hchange

/-- What every change keeps every passage keeps, when the broadcasts have different ids. -/
theorem Passage.preserves (holds : List Message → List Batch → World σ k → Prop)
    (batches : List Batch)
    (hstep : ∀ {made more : List Message} {batches others : List Batch} {world after : World σ k},
      holds made batches world → ((made ++ more).map (·.id)).Nodup →
        world.Change more others after → holds (made ++ more) (batches ++ others) after)
    (h : world.Passage more others after) (hdistinct : ((made ++ more).map (·.id)).Nodup)
    (hstart : holds made batches world) : holds (made ++ more) (batches ++ others) after := by
  induction h with
  | refl =>
    rw [List.append_nil, List.append_nil]
    exact hstart
  | step _ hchange ih =>
    rw [← List.append_assoc] at hdistinct ⊢
    rw [← List.append_assoc]
    refine hstep (ih ?_) hdistinct hchange
    rw [List.map_append] at hdistinct
    exact hdistinct.of_append_left

/-! ## Deeds -/

/-- The world in which something was done to the node with an index, and its sends were handed
over. -/
def acted (world : World σ k) (index : Nat) (deed : Deed) : World σ k :=
  match world.members[index]? with
  | none => world
  | some member =>
    let outcome := (world.lifeOf member).step world.wall deed
    (world.replace index { member with node := outcome.1.node } outcome.1.protocol).sendAll
      outcome.2

/-- Nothing is done if there is no node. -/
theorem acted_of_none {index : Nat} (h : world.members[index]? = none) (deed : Deed) :
    world.acted index deed = world := by
  rw [acted, h]

/-- Something is done to the node that there is. -/
theorem acted_of_some {index : Nat} {member : Member k} (hat : world.members[index]? = some member)
    (deed : Deed) :
    world.acted index deed =
      (world.replace index
        { member with node := ((world.lifeOf member).step world.wall deed).1.node }
        ((world.lifeOf member).step world.wall deed).1.protocol).sendAll
          ((world.lifeOf member).step world.wall deed).2 := by
  rw [acted, hat]

/-- The node to which something was done takes the place that it had. -/
theorem members_acted {index : Nat} {member : Member k} (hat : world.members[index]? = some member)
    (deed : Deed) :
    (world.acted index deed).members = world.members.set index
      { member with node := ((world.lifeOf member).step world.wall deed).1.node } := by
  rw [acted_of_some hat, (sendAll_spec _ _).1]
  rfl

/-- The books go on by the sends of the node. -/
theorem extends_acted {index : Nat} {member : Member k} (hat : world.members[index]? = some member)
    (deed : Deed) :
    world.Extends ((world.lifeOf member).step world.wall deed).2 [] (world.acted index deed) := by
  have hrules := Protocol.sameRules_of_leadsTo
    (Life.course_step (world.lifeOf member) world.wall deed).keeps.2.2
  have hreplaced : world.Extends [] [] (world.replace index
      { member with node := ((world.lifeOf member).step world.wall deed).1.node }
      ((world.lifeOf member).step world.wall deed).1.protocol) :=
    ⟨fun _ hmem => hmem, fun other => protocolOf_replace hrules other, rfl, rfl,
      (List.append_nil _).symm, (List.append_nil _).symm, fun _ hmem => Or.inr hmem⟩
  rw [acted_of_some hat]
  exact hreplaced.trans (extends_sendAll _ _)

/-- A broadcast is something that is done to a node. -/
theorem afterwards_broadcast (world : World σ k) (index : Nat) (id : MessageId) (kind : String)
    (payload : Payload) :
    world.afterwards (world.broadcast index id kind payload) =
      world.acted index (.broadcast id kind payload) := by
  cases hat : world.members[index]? with
  | none =>
    rw [acted_of_none hat, World.broadcast, act, hat]
    rfl
  | some member =>
    rw [acted_of_some hat, World.broadcast, act_of_getElem? hat]
    rfl

/-- So is a rumor round. -/
theorem afterwards_gossipRound (world : World σ k) (index : Nat) :
    world.afterwards (world.gossipRound index) = world.acted index .gossipRound := by
  rw [gossipRound_eq_act]
  cases hat : world.members[index]? with
  | none =>
    rw [acted_of_none hat, act, hat]
    rfl
  | some member =>
    rw [acted_of_some hat, act_of_getElem? hat]
    rfl

/-- So is whatever changes a node without sends. -/
theorem modifyNode_eq_acted (world : World σ k) (index : Nat) (change : Node → Node) (deed : Deed)
    (h : ∀ (life : Life (Protocol σ)) (now : Nat),
      life.step now deed = ({ life with node := change life.node }, [])) :
    world.modifyNode index change = world.acted index deed := by
  cases hat : world.members[index]? with
  | none =>
    rw [acted_of_none hat, modifyNode, List.modify_eq_self (List.getElem?_eq_none_iff.mp hat)]
  | some member =>
    have hprotocols : world.protocols.set member.protocol (world.protocolOf member) =
        world.protocols := Vector.set_getElem_self member.protocol.isLt
    rw [acted_of_some hat, h]
    simp only [sendAll, List.foldl_nil, replace, lifeOf, hprotocols, modifyNode]
    rw [List.modify_eq_set_getElem?, hat]
    rfl

/-- Rumor rounds of several nodes begin with that of the first one, if there is such a node, and it is
written down. -/
theorem roundOf_cons (world : World σ k) (index : Nat) (rest : List Nat) :
    world.members[index]? = none ∧ world.roundOf (index :: rest) = world.roundOf rest ∨
      ∃ member, world.members[index]? = some member ∧
        world.roundOf (index :: rest) =
          ((world.acted index .gossipRound).record (.round world.agenda.now index)).roundOf rest := by
  cases hat : world.members[index]? with
  | none =>
    have hnone : world.gossipRound index = none := by
      rw [gossipRound_eq_act, act, hat]
      rfl
    exact Or.inl ⟨rfl, by rw [roundOf, hnone]⟩
  | some member =>
    have hsome : world.gossipRound index =
        some ((member.node.gossipRound (world.protocolOf member) world.network.isOpen).result,
          world.acted index .gossipRound) := by
      rw [gossipRound_eq_act, act_of_getElem? hat, acted_of_some hat]
      rfl
    exact Or.inr ⟨member, rfl, by rw [roundOf, hsome]⟩

/-- Whatever is done to a node is a change, if it is given no message. What is written down of it
besides the sends does not matter. -/
theorem change_acted (world : World σ k) (index : Nat) (deed : Deed)
    (hown : ∀ message sender, deed ≠ .receive message sender) :
    world.Change (world.originatedAt index deed) (world.batchesAt index deed)
      (world.acted index deed) := by
  cases hat : world.members[index]? with
  | none =>
    rw [acted_of_none hat, originatedAt, batchesAt, hat]
    exact .still rfl (extends_refl world)
  | some member =>
    rw [originatedAt, batchesAt, hat]
    have hnone : (world.lifeOf member).reception? world.wall deed = none := by
      cases deed with
      | receive message sender => exact absurd rfl (hown message sender)
      | _ => rfl
    refine .deed hat (fun message sender h => absurd h (hown message sender))
      (members_acted hat deed) ?_
    rw [hnone]
    exact extends_acted hat deed

/-! ## Turns -/

/-- A message cannot be given to a node that there is not. -/
theorem receive_of_none {index : Nat} (h : world.members[index]? = none) (message : Message)
    (sender : NodeId) : world.receive index message sender = none := by
  rw [receive, act, h]
  rfl

/-- A message that a node is given is something that is done to it. -/
theorem receive_of_some {index : Nat} {member : Member k}
    (hat : world.members[index]? = some member) (message : Message) (sender : NodeId) :
    world.receive index message sender =
      some ((member.node.receive (world.protocolOf member) world.network.isOpen world.wall message
        sender).result, world.acted index (.receive message sender)) := by
  rw [receive, act_of_getElem? hat, acted_of_some hat]
  rfl

/-- So it is something that is done to a node if there is one. -/
theorem afterwards_receive (world : World σ k) (index : Nat) (message : Message)
    (sender : NodeId) :
    world.afterwards (world.receive index message sender) =
      world.acted index (.receive message sender) := by
  cases hat : world.members[index]? with
  | none =>
    rw [receive_of_none hat, acted_of_none hat]
    rfl
  | some member =>
    rw [receive_of_some hat]
    rfl

/-- A message that is delivered to a node is counted, taken in by it, and written down. -/
theorem deliver_of_some {parcel : Parcel} {index : Nat} {member : Member k}
    (hendpoint : world.network.endpoint? parcel.envelope.target = some (.node index))
    (hat : world.members[index]? = some member) :
    world.deliver parcel =
      ((world.withNetwork world.network.countDelivered).acted index
        (.receive parcel.envelope.message parcel.envelope.sender)).record
          (.arrived world.agenda.now parcel
            (member.node.receive (world.protocolOf member) world.network.isOpen world.wall
              parcel.envelope.message parcel.envelope.sender).result) := by
  have hcounted : (world.withNetwork world.network.countDelivered).members[index]? = some member :=
    hat
  have hreceive := receive_of_some hcounted parcel.envelope.message parcel.envelope.sender
  simp only [withNetwork] at hreceive
  simp only [deliver, hendpoint, hreceive]
  rfl

/-- A message that is delivered to a node that there is not is refused. -/
theorem deliver_of_missing {parcel : Parcel} {index : Nat}
    (hendpoint : world.network.endpoint? parcel.envelope.target = some (.node index))
    (hnone : world.members[index]? = none) :
    world.deliver parcel = (world.withNetwork world.network.countDelivered).record
      (.arrived world.agenda.now parcel .refused) := by
  have hcounted : (world.withNetwork world.network.countDelivered).members[index]? = none := hnone
  have hreceive := receive_of_none hcounted parcel.envelope.message parcel.envelope.sender
  simp only [withNetwork] at hreceive
  simp only [deliver, hendpoint, hreceive]
  rfl

/-- A message that is delivered to no node changes none. -/
theorem deliver_of_none {parcel : Parcel} {endpoint : Endpoint}
    (hendpoint : world.network.endpoint? parcel.envelope.target = some endpoint)
    (hnobody : ∀ index, endpoint = .node index → world.members[index]? = none) :
    ∃ reception, world.deliver parcel =
      (world.withNetwork world.network.countDelivered).record
        (.arrived world.agenda.now parcel reception) := by
  cases endpoint with
  | recorder =>
    refine ⟨.accepted, ?_⟩
    simp only [deliver, hendpoint]
    rfl
  | node index => exact ⟨.refused, deliver_of_missing hendpoint (hnobody index rfl)⟩

/-- A message finds no endpoint when it is delivered, or an endpoint that is no node, or a node. -/
theorem deliver_cases (world : World σ k) (parcel : Parcel) :
    world.network.endpoint? parcel.envelope.target = none ∧
        world.deliver parcel = (world.withNetwork world.network.countUndeliverable).record
          (.unclaimed world.agenda.now parcel) ∨
      (∃ endpoint reception, world.network.endpoint? parcel.envelope.target = some endpoint ∧
        (∀ index, endpoint = .node index → world.members[index]? = none) ∧
        world.deliver parcel = (world.withNetwork world.network.countDelivered).record
          (.arrived world.agenda.now parcel reception)) ∨
      ∃ index member, world.network.endpoint? parcel.envelope.target = some (.node index) ∧
        world.members[index]? = some member ∧
        world.deliver parcel = ((world.withNetwork world.network.countDelivered).acted index
          (.receive parcel.envelope.message parcel.envelope.sender)).record
            (.arrived world.agenda.now parcel
              (member.node.receive (world.protocolOf member) world.network.isOpen world.wall
                parcel.envelope.message parcel.envelope.sender).result) := by
  cases hendpoint : world.network.endpoint? parcel.envelope.target with
  | none =>
    refine Or.inl ⟨rfl, ?_⟩
    rw [deliver, hendpoint]
    rfl
  | some endpoint =>
    refine Or.inr ?_
    by_cases hnobody : ∀ index, endpoint = .node index → world.members[index]? = none
    · obtain ⟨reception, hdeliver⟩ := deliver_of_none hendpoint hnobody
      exact Or.inl ⟨endpoint, reception, rfl, hnobody, hdeliver⟩
    · push Not at hnobody
      obtain ⟨index, rfl, hsome⟩ := hnobody
      obtain ⟨member, hmember⟩ := Option.ne_none_iff_exists'.mp hsome
      exact Or.inr ⟨index, member, rfl, hmember, deliver_of_some hendpoint hmember⟩

/-- A delivery is a change: its message was in transit. -/
theorem change_deliver {position : Nat} {parcel : Parcel}
    (hat : world.agenda.ready[position]? = some (.parcel 0 parcel)) :
    let rest := world.withReady (world.agenda.ready.eraseIdx position)
    world.Change [] (rest.batchesOfTask (.parcel 0 parcel)) (rest.deliver parcel) := by
  intro rest
  have hready : world.Extends [] [] rest := extends_withReady hat
  have htransit := mem_transit_of_ready hat
  rcases rest.deliver_cases parcel with ⟨hendpoint, hdeliver⟩ |
    ⟨endpoint, _, hendpoint, hnobody, hdeliver⟩ | ⟨index, member, hendpoint, hmember, hdeliver⟩
  · simp only [hdeliver, batchesOfTask, hendpoint]
    refine .still rfl (Extends.recordOther ?_ rfl rfl)
    exact hready.trans (extends_of_still (fun _ hmem => hmem) rfl rfl rfl rfl fun _ hmem => hmem)
  · have hentry : (parcel.envelope.target, endpoint) ∈ world.network.registry :=
      Network.mem_of_lookup hendpoint
    have hbatches : rest.batchesOfTask (.parcel 0 parcel) = [] := by
      rw [batchesOfTask, hendpoint]
      cases endpoint with
      | recorder => rfl
      | node index => simp only [batchesAt, hnobody index rfl]
    rw [hbatches, hdeliver]
    exact .unheard hentry hnobody rfl (Extends.recordArrival (extends_refl _) hready _ _ _)
  · have hbatches : rest.batchesOfTask (.parcel 0 parcel) =
        (world.lifeOf member).batches world.wall
          (.receive parcel.envelope.message parcel.envelope.sender) := by
      rw [batchesOfTask, hendpoint]
      simp only [batchesAt, hmember]
      rfl
    have hcounted : (rest.withNetwork rest.network.countDelivered).members[index]? =
        some member := hmember
    have hacted := extends_acted hcounted
      (.receive parcel.envelope.message parcel.envelope.sender)
    rw [hbatches, hdeliver]
    refine @Change.deed _ _ _ world _ index member
      (.receive parcel.envelope.message parcel.envelope.sender) hmember
      (fun message sender h => ⟨parcel.envelope, htransit, ?_⟩) (members_acted hcounted _)
      (hacted.recordArrival hready _ _ _)
    cases h
    rfl

/-- The rumor rounds of several nodes are a passage. -/
theorem passage_roundOf (world : World σ k) (indexes : List Nat) :
    world.Passage [] (world.batchesOfRounds indexes) (world.roundOf indexes) := by
  induction indexes generalizing world with
  | nil => exact .refl
  | cons index rest ih =>
    have hsplit : world.roundOf (index :: rest) = (world.roundOf [index]).roundOf rest := by
      simp only [roundOf]
      split <;> rfl
    have hfirst : world.Change [] (world.batchesAt index .gossipRound) (world.roundOf [index]) := by
      rcases world.roundOf_cons index [] with ⟨hat, heq⟩ | ⟨member, hat, heq⟩
      · rw [heq, batchesAt, hat]
        exact .still rfl (extends_refl world)
      · rw [heq, batchesAt, hat]
        exact @Change.deed _ _ _ world _ index member .gossipRound hat
          (fun _ _ h => Deed.noConfusion h) (members_acted hat _)
          ((extends_acted hat .gossipRound).recordOther rfl rfl)
    rw [hsplit, batchesOfRounds]
    exact hfirst.passage.trans (ih (world.roundOf [index]))

/-- The rumor round of all nodes is a passage. -/
theorem passage_roundOfAll (world : World σ k) (interval : Nat) :
    world.Passage [] (world.batchesOfTask (.rounds interval)) (world.roundOfAll interval) := by
  unfold roundOfAll batchesOfTask
  dsimp only
  split
  · exact .refl
  · rw [← List.append_nil (world.batchesOfRounds _)]
    refine (world.passage_roundOf _).step (.still rfl ?_)
    refine extends_of_still (fun _ hmem => hmem) rfl rfl rfl rfl fun envelope hmem => ?_
    exact (perm_transit_schedule _ interval (.rounds interval)).mem_iff.mp hmem

/-- The turn of a ready task is a passage. -/
theorem passage_takeTurn (world : World σ k) (position : Nat) :
    world.Passage [] (world.batchesBy (.turn position)) (world.takeTurn position) := by
  cases hat : world.agenda.ready[position]? with
  | none =>
    simp only [takeTurn, batchesBy, hat]
    exact .refl
  | some task =>
    simp only [takeTurn, batchesBy, hat]
    cases task with
    | parcel delay parcel =>
      cases delay with
      | zero => exact (change_deliver hat).passage
      | succ delay =>
        -- The message stays in transit: it leaves the queue for a timer.
        have htransit := (perm_transit_schedule (world.withReady
          (world.agenda.ready.eraseIdx position)) (delay + 1) (.parcel 0 parcel)).trans
            (perm_transit_withReady hat).symm
        have hbooks : world.Extends [] []
            ((world.withReady (world.agenda.ready.eraseIdx position)).perform
              (.parcel (delay + 1) parcel)) :=
          extends_of_still (fun _ hmem => hmem) rfl rfl rfl rfl fun envelope hmem =>
            htransit.mem_iff.mp hmem
        have hchange : world.Change [] []
            ((world.withReady (world.agenda.ready.eraseIdx position)).perform
              (.parcel (delay + 1) parcel)) := .still rfl hbooks
        exact hchange.passage
    | rounds interval =>
      have hready : world.Change [] [] (world.withReady (world.agenda.ready.eraseIdx position)) :=
        .still rfl (extends_withReady hat)
      exact hready.passage.trans (passage_roundOfAll _ interval)

/-! ## Moves and runs -/

/-- Every internal move is a passage. -/
theorem passage_step (world : World σ k) {move : Move k} (h : move.isInternal = true) :
    world.Passage (world.originatedBy move) (world.batchesBy move) (world.step move) := by
  have hstill : ∀ after : World σ k, after.members = world.members →
      world.Extends [] [] after → world.Passage [] [] after :=
    fun after hmembers hbooks => (Change.still hmembers hbooks).passage
  have hnetwork : ∀ network : Network σ, network.stats = world.network.stats →
      (∀ entry ∈ network.registry, entry ∈ world.network.registry) →
      world.Passage [] [] (world.withNetwork network) := by
    intro network hstats hregistry
    refine hstill _ rfl (extends_of_still hregistry rfl ?_ ?_ rfl fun _ hmem => hmem)
    · exact congrArg NetworkStats.sent hstats
    · exact congrArg NetworkStats.delivered hstats
  cases move with
  | broadcast index id kind payload =>
    rw [step, afterwards_broadcast]
    exact (world.change_acted index (.broadcast id kind payload) fun _ _ h =>
      Deed.noConfusion h).passage
  | gossipRound index =>
    rw [step, afterwards_gossipRound]
    have hchange := world.change_acted index .gossipRound fun _ _ h => Deed.noConfusion h
    rw [originatedAt_eq_nil fun _ _ => rfl] at hchange
    exact hchange.passage
  | addPeer index peer =>
    rw [step, world.modifyNode_eq_acted index _ (.addPeer peer) fun _ _ => rfl]
    have hchange := world.change_acted index (.addPeer peer) fun _ _ h => Deed.noConfusion h
    rw [originatedAt_eq_nil fun _ _ => rfl, batchesAt_eq_nil fun _ _ => rfl] at hchange
    exact hchange.passage
  | shutdown index =>
    rw [step, world.modifyNode_eq_acted index _ .shutdown fun _ _ => rfl]
    have hchange := world.change_acted index .shutdown fun _ _ h => Deed.noConfusion h
    rw [originatedAt_eq_nil fun _ _ => rfl, batchesAt_eq_nil fun _ _ => rfl] at hchange
    exact hchange.passage
  | unregister id => exact hnetwork _ rfl fun entry hmem => (List.mem_filter.mp hmem).1
  | setLatency _ | setJitter _ | setClock _ | close => exact hnetwork _ rfl fun _ hmem => hmem
  | setDropRate rate =>
    simp only [step, Network.setDropRate, NetworkConfig.checkDropRate]
    split
    · exact hnetwork _ rfl fun _ hmem => hmem
    · exact .refl
  | startRounds interval =>
    refine hstill _ rfl (extends_of_still (fun _ hmem => hmem) rfl rfl rfl rfl ?_)
    intro envelope hmem
    exact (perm_transit_schedule world interval (.rounds interval)).mem_iff.mp hmem
  | stopRounds =>
    refine hstill _ rfl (extends_of_still (fun _ hmem => hmem) rfl rfl rfl rfl ?_)
    intro envelope hmem
    rw [step, transit_stopRounds] at hmem
    exact hmem
  | turn position => exact passage_takeTurn world position
  | fire =>
    refine hstill _ rfl (extends_of_still (fun _ hmem => hmem) rfl rfl rfl rfl ?_)
    intro envelope hmem
    rw [step, transit_fire] at hmem
    exact hmem
  | pass _ | setWall _ =>
    exact hstill _ rfl (extends_of_still (fun _ hmem => hmem) rfl rfl rfl rfl fun _ hmem => hmem)
  | send | receive | join | register => cases h

/-- Nobody makes a broadcast in the turn of a task. -/
theorem broadcasts_turns (world : World σ k) (positions : List Nat) :
    world.broadcasts (positions.map .turn) = [] := by
  induction positions generalizing world with
  | nil => rfl
  | cons position rest ih => exact ih (world.takeTurn position)

/-- A run of internal moves is a passage. -/
theorem passage_run (world : World σ k) (moves : List (Move k))
    (h : ∀ move ∈ moves, move.isInternal = true) :
    world.Passage (world.broadcasts moves) (world.batches moves) (world.run moves) := by
  induction moves generalizing world with
  | nil => exact .refl
  | cons move rest ih =>
    have hrest := ih (world.step move) fun other hmem => h other (List.mem_cons_of_mem move hmem)
    exact (world.passage_step (h move List.mem_cons_self)).trans hrest

end World

end Epidemic
