import Epidemic.Proofs.Node.Fanout

/-!
# The order in which peers are listed

Peers are drawn from the candidates in ascending order, and a node keeps its peers in this order, too.
So nothing depends on how peers are listed or in which order a node gets them: not who is drawn, not
how much is drawn, and not what is sent then.
-/

namespace Epidemic

/-- A request for peers to which a message is to be pushed. -/
structure Request where
  /-- The peers that are listed. -/
  listed : List NodeId
  /-- The one that is not to be drawn, if there is one. -/
  excluded : Option NodeId

/-- Whether two requests list the same peers, if the excluded ones are set aside. -/
def Request.IsLike (request other : Request) : Prop :=
  ∀ peer, (peer ∈ request.listed ∧ request.excluded ≠ some peer) ↔
    (peer ∈ other.listed ∧ other.excluded ≠ some peer)

/-- Like requests have the same candidates. -/
theorem Request.IsLike.candidates_eq {request other : Request} (h : request.IsLike other) :
    Protocol.candidates request.listed request.excluded =
      Protocol.candidates other.listed other.excluded :=
  Protocol.eq_candidates (Protocol.ascending_candidates _ _) fun peer =>
    Protocol.mem_candidates.trans (h peer)

namespace Protocol

variable {σ : Type} [Random.Chooser σ] {first second : Protocol σ}

/-- What is drawn for several requests in turn, and the state of the generator after each of them. -/
def answers (protocol : Protocol σ) : List Request → List (List NodeId × σ)
  | [] => []
  | request :: rest =>
    let (drawn, after) := protocol.select request.listed request.excluded
    (drawn, after.generator) :: after.answers rest

/-- For like requests the same peers are drawn, and the generators are left in the same state. -/
theorem select_congr (hfanout : first.fanout = second.fanout)
    (hgenerator : first.generator = second.generator) {request other : Request}
    (h : request.IsLike other) :
    (first.select request.listed request.excluded).1 =
        (second.select other.listed other.excluded).1 ∧
      (first.select request.listed request.excluded).2.generator =
        (second.select other.listed other.excluded).2.generator := by
  simp only [select, h.candidates_eq, hfanout, hgenerator, and_self]

/-- The same for several requests in turn. -/
theorem answers_congr (hfanout : first.fanout = second.fanout)
    (hgenerator : first.generator = second.generator) {requests others : List Request}
    (h : List.Forall₂ Request.IsLike requests others) :
    first.answers requests = second.answers others := by
  induction h generalizing first second with
  | nil => rfl
  | @cons request other _ _ hlike _ ih =>
    obtain ⟨hdrawn, hafter⟩ := select_congr hfanout hgenerator hlike
    have hrules : (first.select request.listed request.excluded).2.fanout =
        (second.select other.listed other.excluded).2.fanout := hfanout
    simp only [answers]
    rw [hdrawn, hafter, ih hrules hafter]

end Protocol

/-- If the peers of a node are in ascending order, they are so when it gets another one. -/
theorem Node.ascending_addPeer {node : Node} (h : node.peers.Pairwise (· < ·)) (peer : NodeId) :
    (node.addPeer peer).2.peers.Pairwise (· < ·) := by
  unfold addPeer
  split
  · exact h
  · exact Ordered.pairwise_insert (fun _ _ _ => String.lt_trans) peer h

namespace Life

variable {σ : Type}

/-- The life with other peers of the node. -/
def withPeers (life : Life (Protocol σ)) (peers : List NodeId) : Life (Protocol σ) :=
  { life with node := { life.node with peers } }

/-- A node is told of several peers, each of them at a reading of the wall clock. -/
def tell (named : List (Nat × NodeId)) : List (Nat × Deed) :=
  named.map fun entry => (entry.1, .addPeer entry.2)

variable [Random.Chooser σ]

/-- What a node sends on each of the things that are done to it one after the other. -/
def sent (life : Life (Protocol σ)) : List (Nat × Deed) → List (List Envelope)
  | [] => []
  | (now, deed) :: rest => (life.step now deed).2 :: (life.step now deed).1.sent rest

/-- The peers of a node stay in ascending order, whatever is done to it. -/
theorem ascending_run (life : Life (Protocol σ)) (entries : List (Nat × Deed))
    (h : life.node.peers.Pairwise (· < ·)) : (life.run entries).node.peers.Pairwise (· < ·) := by
  induction entries generalizing life with
  | nil => exact h
  | cons entry rest ih =>
    obtain ⟨now, deed⟩ := entry
    refine ih _ ?_
    cases deed with
    | addPeer peer => exact Node.ascending_addPeer h peer
    | _ =>
      rw [life.peers_step now fun _ heq => Deed.noConfusion heq]
      exact h

/-- A node that gets a peer has the candidates among its former peers and this one, itself being
excluded. -/
theorem step_addPeer (life : Life (Protocol σ)) (now : Nat) (peer : NodeId)
    (h : life.node.peers.Pairwise (· < ·)) (hself : life.node.id ∉ life.node.peers) :
    (life.step now (.addPeer peer)).1 =
      life.withPeers (Protocol.candidates (life.node.peers ++ [peer]) (some life.node.id)) := by
  obtain ⟨peers, hnode, hmem, -⟩ := life.node.addPeer_eq peer
  have hascending := Node.ascending_addPeer h peer
  rw [hnode] at hascending
  have hpeers : peers =
      Protocol.candidates (life.node.peers ++ [peer]) (some life.node.id) := by
    refine Protocol.eq_candidates hascending fun other => ?_
    simp only [hmem, List.mem_append, List.mem_singleton, ne_eq, Option.some_inj]
    constructor
    · rintro (hold | ⟨rfl, hother⟩)
      · exact ⟨Or.inl hold, fun heq => hself (heq ▸ hold)⟩
      · exact ⟨Or.inr rfl, fun heq => hother heq.symm⟩
    · rintro ⟨hold | rfl, hother⟩
      · exact Or.inl hold
      · exact Or.inr ⟨rfl, fun heq => hother heq.symm⟩
  rw [step, hnode, hpeers]
  rfl

/-- A node that is told of several peers has the candidates among its former peers and these, itself
being excluded. -/
theorem run_tell (life : Life (Protocol σ)) (named : List (Nat × NodeId))
    (h : life.node.peers.Pairwise (· < ·)) (hself : life.node.id ∉ life.node.peers) :
    life.run (tell named) = life.withPeers
      (Protocol.candidates (life.node.peers ++ named.map (·.2)) (some life.node.id)) := by
  induction named generalizing life with
  | nil =>
    have hpeers : life.node.peers =
        Protocol.candidates (life.node.peers ++ []) (some life.node.id) := by
      refine Protocol.eq_candidates h fun peer => ?_
      rw [List.append_nil, ne_eq, Option.some_inj]
      exact ⟨fun hmem => ⟨hmem, fun heq => hself (heq ▸ hmem)⟩, And.left⟩
    rw [List.map_nil, ← hpeers]
    rfl
  | cons entry rest ih =>
    have hstep := life.step_addPeer entry.1 entry.2 h hself
    have hrest := ih
      (life.withPeers (Protocol.candidates (life.node.peers ++ [entry.2]) (some life.node.id)))
      (Protocol.ascending_candidates _ _) fun hmem => (Protocol.mem_candidates.mp hmem).2 rfl
    have hlike : Request.IsLike
        ⟨Protocol.candidates (life.node.peers ++ [entry.2]) (some life.node.id) ++ rest.map (·.2),
          some life.node.id⟩
        ⟨life.node.peers ++ (entry :: rest).map (·.2), some life.node.id⟩ := fun peer => by
      simp only [List.mem_append, Protocol.mem_candidates, List.map_cons, List.mem_cons,
        List.not_mem_nil, or_false]
      tauto
    show (life.step entry.1 (.addPeer entry.2)).1.run (tell rest) = _
    rw [hstep, hrest, ← hlike.candidates_eq]
    rfl

/-- A node that is told of the same peers in another order, apart from itself and from those that it has
already, is the same afterwards, and so is its protocol. -/
theorem run_tell_congr (life : Life (Protocol σ)) (h : life.node.peers.Pairwise (· < ·))
    (hself : life.node.id ∉ life.node.peers) {named others : List (Nat × NodeId)}
    (hsame : ∀ peer, peer ≠ life.node.id → peer ∉ life.node.peers →
      (peer ∈ named.map (·.2) ↔ peer ∈ others.map (·.2))) :
    life.run (tell named) = life.run (tell others) := by
  have hlike : Request.IsLike ⟨life.node.peers ++ named.map (·.2), some life.node.id⟩
      ⟨life.node.peers ++ others.map (·.2), some life.node.id⟩ := fun peer => by
    simp only [List.mem_append, ne_eq, Option.some_inj]
    refine and_congr_left fun hother => or_congr_right' fun hnew => ?_
    exact hsame peer (fun heq => hother heq.symm) hnew
  rw [life.run_tell named h hself, life.run_tell others h hself, hlike.candidates_eq]

end Life

/-- How peers are listed makes no difference. Protocols with the same fanout whose generators are in the
same state draw the same peers for requests that list the same ones but the excluded ones, and their
generators are left in the same state each time. If two nodes that follow such protocols, with the same
past, are told of the same peers, apart from themselves and from those that they have already, they send
the same on whatever is done to them ever after. -/
theorem Protocol.listing_makes_no_difference {σ : Type} [Random.Chooser σ] {first second : Protocol σ}
    (hfanout : first.fanout = second.fanout) (hgenerator : first.generator = second.generator) :
    (∀ requests others, List.Forall₂ Request.IsLike requests others →
      first.answers requests = second.answers others) ∧
    (first.maxAge = second.maxAge → ∀ id rumorRounds past named others,
      let life := (Life.new id rumorRounds first).run past
      let twin := (Life.new id rumorRounds second).run past
      (∀ peer, peer ≠ id → peer ∉ life.node.peers →
        (peer ∈ named.map (·.2) ↔ peer ∈ others.map (·.2))) →
      ∀ entries,
        (life.run (Life.tell named)).sent entries = (twin.run (Life.tell others)).sent entries) := by
  refine ⟨fun requests others => answers_congr hfanout hgenerator, ?_⟩
  intro hage id rumorRounds past named others life twin hsame entries
  have htwin : twin = life := by
    obtain ⟨fanout, maxAge, generator⟩ := first
    obtain ⟨_, _, _⟩ := second
    cases hfanout
    cases hgenerator
    cases hage
    rfl
  have hid : life.node.id = id := (Life.run_keeps (Life.new id rumorRounds first) past).1
  have hascending : life.node.peers.Pairwise (· < ·) :=
    Life.ascending_run (Life.new id rumorRounds first) past List.Pairwise.nil
  have hpeered : life.node.WellPeered :=
    Life.wellPeered_run (Life.new id rumorRounds first) past ⟨List.nodup_nil, List.not_mem_nil⟩
  rw [← hid] at hsame
  rw [htwin, life.run_tell_congr hascending hpeered.self hsame]

/-- A node that has one peer and keeps one message hears of two more peers, once with itself among them
and one of them twice, once in another order and with its peer among them. Both times it sends its next
broadcast and then the two messages of its rumor round to the same peers. -/
theorem Protocol.listing_makes_no_difference_retold :
    let protocol : Protocol Random.Script := ⟨1, none, ⟨[7, 0x8000000000000000]⟩⟩
    let past : List (Nat × Deed) := [(0, .addPeer "d"), (0, .broadcast "first" "update" [])]
    let named : List (Nat × NodeId) := [(1, "c"), (1, "a"), (1, "b"), (2, "c")]
    let others : List (Nat × NodeId) := [(1, "b"), (1, "d"), (3, "c")]
    let entries : List (Nat × Deed) := [(4, .broadcast "second" "update" []), (5, .gossipRound)]
    let life := (Life.new "a" 1 protocol).run past
    List.Forall₂ Request.IsLike [⟨["b", "a", "b", "c"], some "a"⟩, ⟨["d"], none⟩]
        [⟨["c", "b"], none⟩, ⟨["d", "d"], some "e"⟩] ∧
      protocol.answers [⟨["b", "a", "b", "c"], some "a"⟩, ⟨["d"], none⟩] =
        protocol.answers [⟨["c", "b"], none⟩, ⟨["d", "d"], some "e"⟩] ∧
      (∀ peer, peer ≠ "a" → peer ∉ life.node.peers →
        (peer ∈ named.map (·.2) ↔ peer ∈ others.map (·.2))) ∧
      ((life.run (Life.tell named)).sent entries).map List.length = [1, 2] ∧
      (life.run (Life.tell named)).sent entries = (life.run (Life.tell others)).sent entries := by
  intro protocol past named others entries life
  have hlike : List.Forall₂ Request.IsLike [⟨["b", "a", "b", "c"], some "a"⟩, ⟨["d"], none⟩]
      [⟨["c", "b"], none⟩, ⟨["d", "d"], some "e"⟩] := by
    refine .cons (fun peer => ?_) (.cons (fun peer => ?_) .nil)
    · grind
    · grind
  have hpeers : life.node.peers = ["d"] := by decide +kernel
  have hsame : ∀ peer, peer ≠ "a" → peer ∉ life.node.peers →
      (peer ∈ named.map (·.2) ↔ peer ∈ others.map (·.2)) := fun peer hother hnew => by
    rw [hpeers] at hnew
    grind
  obtain ⟨hanswers, hsent⟩ := Protocol.listing_makes_no_difference
    (rfl : protocol.fanout = protocol.fanout) rfl
  exact ⟨hlike, hanswers _ _ hlike, hsame, by decide +kernel,
    hsent rfl "a" 1 past named others hsame entries⟩

end Epidemic
