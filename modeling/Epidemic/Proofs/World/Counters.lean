import Epidemic.Proofs.World.Traffic

/-!
# The counters of network and nodes

What the network counts as delivered is what its nodes count as received for the first time or
again, and what was refused because its target was down. Each of these counters is kept in another
place, so their agreement is an invariant of all that happens; it needs that every endpoint is a
node.
-/

namespace Epidemic

namespace Life

variable {π : Type} [Policy π]

/-- What a deed counts: a message received for the first time or again, or a broadcast. -/
theorem counters_step (life : Life π) (now : Nat) (deed : Deed) :
    (life.step now deed).1.node.stats.received =
        life.node.stats.received + (life.reception? now deed).toList.count .accepted ∧
      (life.step now deed).1.node.stats.duplicates =
        life.node.stats.duplicates + (life.reception? now deed).toList.count .repeated ∧
      (life.step now deed).1.node.stats.originated =
        life.node.stats.originated + (life.originated? now deed).toList.length := by
  cases deed with
  | addPeer peer =>
    simp only [step, Node.addPeer]
    split <;> exact ⟨rfl, rfl, rfl⟩
  | broadcast id kind payload =>
    rw [step, follow]
    cases hdown : life.node.isDown with
    | true =>
      have hnone : life.originated? now (.broadcast id kind payload) = none := if_pos hdown
      rw [Node.broadcast_of_isDown hdown, hnone]
      exact ⟨rfl, rfl, rfl⟩
    | false =>
      have hsome : life.originated? now (.broadcast id kind payload) =
          some (life.node.compose now id kind payload) := if_neg (ne_true_of_eq_false hdown)
      obtain ⟨⟨forwards, hnode⟩, -⟩ :=
        Node.broadcast_of_isUp hdown life.protocol life.linked now id kind payload
      rw [hnode, hsome]
      exact ⟨rfl, rfl, rfl⟩
  | receive message sender =>
    have hreception : life.reception? now (.receive message sender) =
        some (life.node.receive life.protocol life.linked now message sender).result := rfl
    rw [step, follow, hreception]
    cases hdown : life.node.isDown with
    | true =>
      rw [Node.receive_of_isDown hdown]
      exact ⟨rfl, rfl, rfl⟩
    | false =>
      cases hseen : life.node.hasSeen message.id with
      | true =>
        rw [Node.receive_of_hasSeen hdown hseen]
        exact ⟨rfl, rfl, rfl⟩
      | false =>
        obtain ⟨hresult, ⟨forwards, hnode⟩, -⟩ :=
          Node.receive_of_isNew hdown hseen life.protocol life.linked now sender
        rw [hnode, hresult]
        exact ⟨rfl, rfl, rfl⟩
  | gossipRound =>
    rw [step, follow]
    cases hdown : life.node.isDown with
    | true =>
      rw [Node.gossipRound_of_isDown hdown]
      exact ⟨rfl, rfl, rfl⟩
    | false =>
      obtain ⟨⟨forwards, hnode⟩, -⟩ := Node.gossipRound_of_isUp hdown life.protocol life.linked
      rw [hnode]
      exact ⟨rfl, rfl, rfl⟩
  | shutdown | unlink => exact ⟨rfl, rfl, rfl⟩

/-- A message is refused by a node that is down. -/
theorem isDown_of_refused {life : Life π} {now : Nat} {deed : Deed}
    (h : life.reception? now deed = some .refused) : life.node.isDown = true := by
  cases deed with
  | receive message sender =>
    have hresult := Option.some.inj h
    cases hdown : life.node.isDown with
    | true => rfl
    | false =>
      cases hseen : life.node.hasSeen message.id with
      | true =>
        rw [Node.receive_of_hasSeen hdown hseen] at hresult
        cases hresult
      | false =>
        rw [(Node.receive_of_isNew hdown hseen life.protocol life.linked now sender).1] at hresult
        cases hresult
  | addPeer | broadcast | gossipRound | shutdown | unlink => cases h

/-- A node that is down stays down. -/
theorem isDown_step (life : Life π) (h : life.node.isDown = true) (now : Nat) (deed : Deed) :
    (life.step now deed).1.node.isDown = true :=
  ((course_step life now deed).learned_of_isDown h).2

end Life

/-- Every message that arrives is accepted, received again or refused. -/
theorem Reception.length_eq_counts (receptions : List Reception) :
    receptions.length = receptions.count .accepted + receptions.count .repeated +
      receptions.count .refused := by
  induction receptions with
  | nil => rfl
  | cons reception rest ih =>
    simp only [List.length_cons, List.count_cons]
    cases reception <;> simp only [beq_self_eq_true, if_true, reduceCtorEq, beq_iff_eq, if_false] <;>
      omega

/-- If a node that is replaced does not come up again, somebody who was down is down still. -/
theorem Node.exists_isDown_set {nodes : List Node} {index : Nat} {node next : Node}
    (hat : nodes[index]? = some node) (hkept : node.isDown = true → next.isDown = true)
    (h : ∃ other ∈ nodes, other.isDown = true) :
    ∃ other ∈ nodes.set index next, other.isDown = true := by
  obtain ⟨other, hother, hdown⟩ := h
  obtain ⟨place, hplace⟩ := List.mem_iff_getElem?.mp hother
  by_cases heq : index = place
  · rw [← heq, hat] at hplace
    cases hplace
    obtain ⟨hlt, -⟩ := List.getElem?_eq_some_iff.mp hat
    exact ⟨next, List.mem_set hlt next, hkept hdown⟩
  · refine ⟨other, ?_, hdown⟩
    rw [← List.getElem?_set_ne heq] at hplace
    exact List.mem_of_getElem? hplace

namespace World

variable {σ : Type} {k : Nat}

/-- Whether the counters of nodes and network agree with each other. -/
structure Counters (made : List Message) (world : World σ k) : Prop where
  /-- Every endpoint is a node. -/
  registry : ∀ entry ∈ world.network.registry,
    ∃ index < world.members.length, entry.2 = .node index
  /-- The nodes count what they accept. -/
  received : Simulation.total (·.stats.received) world.nodes = world.receptions.count .accepted
  /-- They count what they receive again. -/
  duplicates : Simulation.total (·.stats.duplicates) world.nodes =
    world.receptions.count .repeated
  /-- They count their broadcasts. -/
  originated : Simulation.total (·.stats.originated) world.nodes = made.length
  /-- The network counts what arrives. -/
  delivered : world.network.stats.delivered = world.receptions.length
  /-- If a message was refused, some node is down. -/
  refused : .refused ∈ world.receptions → ∃ node ∈ world.nodes, node.isDown = true

variable {made more : List Message} {others : List Batch} {world after : World σ k}

/-- What does not touch the nodes, and lets nothing arrive, does not matter for the counters. -/
theorem Counters.still (h : world.Counters made) (hmembers : after.members = world.members)
    (hbooks : world.Extends [] [] after) : after.Counters made := by
  have hreceptions : after.receptions = world.receptions := by
    rw [hbooks.receptions, List.append_nil]
  have hnodes : after.nodes = world.nodes := by rw [nodes, hmembers, nodes]
  refine ⟨fun entry hentry => ?_, ?_, ?_, ?_, ?_, ?_⟩
  · rw [hmembers]
    exact h.registry entry (hbooks.registry entry hentry)
  · rw [hnodes, hreceptions, h.received]
  · rw [hnodes, hreceptions, h.duplicates]
  · rw [hnodes, h.originated]
  · rw [hbooks.delivered, hreceptions, h.delivered]
    rfl
  · rw [hnodes, hreceptions]
    exact h.refused

variable [Random.Source σ]

/-- Every change keeps the counters in agreement. -/
theorem Counters.change (h : world.Counters made) (hchange : world.Change more others after) :
    after.Counters (made ++ more) := by
  cases hchange with
  | still hmembers hbooks =>
    rw [List.append_nil]
    exact h.still hmembers hbooks
  | unheard hentry hnobody _ _ =>
    -- Every endpoint is a node, so there is somebody to hear the message.
    obtain ⟨index, hlt, hnode⟩ := h.registry _ hentry
    have hnone := hnobody index hnode
    rw [List.getElem?_eq_none_iff] at hnone
    omega
  | @deed _ index member deed hat hoffered hmembers hbooks =>
    have hnodeAt : world.nodes[index]? = some member.node := by
      rw [nodes, List.getElem?_map, hat]
      rfl
    have hnodes := nodes_set hmembers
    obtain ⟨hreceived, hduplicates, horiginated⟩ :=
      Life.counters_step (world.lifeOf member) world.wall deed
    have htotal : ∀ count : Node → Nat, Simulation.total count after.nodes + count member.node =
        Simulation.total count world.nodes +
          count ((world.lifeOf member).step world.wall deed).1.node := by
      intro count
      rw [hnodes]
      exact Simulation.total_set count hnodeAt _
    have hlife : (world.lifeOf member).node = member.node := rfl
    rw [hlife] at hreceived hduplicates horiginated
    refine ⟨fun entry hentry => ?_, ?_, ?_, ?_, ?_, fun hrefused => ?_⟩
    · rw [hmembers, List.length_set]
      exact h.registry entry (hbooks.registry entry hentry)
    · have hsum := htotal (·.stats.received)
      have hbefore := h.received
      rw [hbooks.receptions, List.count_append]
      omega
    · have hsum := htotal (·.stats.duplicates)
      have hbefore := h.duplicates
      rw [hbooks.receptions, List.count_append]
      omega
    · have hsum := htotal (·.stats.originated)
      have hbefore := h.originated
      rw [List.length_append]
      omega
    · rw [hbooks.delivered, hbooks.receptions, List.length_append, h.delivered]
    · -- Whoever refused it was down, and whoever was down stays so.
      rw [hnodes]
      refine Node.exists_isDown_set hnodeAt
        (fun hdown => Life.isDown_step (world.lifeOf member) hdown world.wall deed) ?_
      rw [hbooks.receptions] at hrefused
      rcases List.mem_append.mp hrefused with hold | hnew
      · exact h.refused hold
      · exact ⟨member.node, List.mem_of_getElem? hnodeAt,
          Life.isDown_of_refused (Option.mem_toList.mp hnew)⟩

/-- So does every passage. -/
theorem Counters.passage (h : world.Counters made)
    (hdistinct : ((made ++ more).map (·.id)).Nodup) (hpassage : world.Passage more others after) :
    after.Counters (made ++ more) :=
  hpassage.preserves (fun made _ world => world.Counters made) []
    (fun hcounters _ hchange => hcounters.change hchange) hdistinct h

end World

end Epidemic
