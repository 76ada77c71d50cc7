import Epidemic.Proofs.World.Traffic
import Epidemic.Proofs.World.Turns

/-!
# What moves leave as it is

Of the network turns change the generator and the counters alone. Its delays and its loss rate are
what they were set to last, and nodes can reach it until it is closed. Nodes keep their names and
their order, and there is another one only when it joins.
-/

namespace Epidemic

namespace Move

variable {k : Nat}

/-- What a move makes of the configuration of the network. A loss rate that is no probability is not
set. -/
def reconfigure (config : NetworkConfig) : Move k → NetworkConfig
  | .setLatency latency => { config with latency }
  | .setJitter jitter => { config with jitter }
  | .setDropRate dropRate => if dropRate.isProbability then { config with dropRate } else config
  | _ => config

/-- Whether a move closes the network to the nodes. -/
def closes : Move k → Bool
  | .close => true
  | _ => false

/-- Whether a node joins by a move. -/
def joins : Move k → Bool
  | .join _ _ => true
  | _ => false

/-- No node joins by an internal move. -/
theorem joins_of_isInternal {move : Move k} (h : move.isInternal = true) : move.joins = false := by
  cases move with
  | join => cases h
  | _ => rfl

end Move

namespace World

variable {σ : Type} {k : Nat} [Random.Source σ] {world after : World σ k}

/-! ## The network -/

/-- Handing over a send changes the generator and the counters of the network. -/
theorem network_send (world : World σ k) (envelope : Envelope) :
    ∃ generator stats, (world.send envelope).network = { world.network with generator, stats } := by
  obtain ⟨agenda, heq, -⟩ := send_eq world envelope
  obtain ⟨generator, stats, hnetwork⟩ := world.network.dispatch_keeps
  rw [heq]
  exact ⟨generator, stats, hnetwork⟩

/-- What is done in turns changes the generator and the counters of the network, and nothing else
of it. -/
theorem Touches.network (h : world.Touches after) :
    ∃ generator stats, after.network = { world.network with generator, stats } := by
  induction h with
  | refl => exact ⟨world.network.generator, world.network.stats, rfl⟩
  | @tail middle _ _ htouch ih =>
    obtain ⟨generator, stats, hmiddle⟩ := ih
    cases htouch with
    | member _ _ _ | event _ _ => exact ⟨generator, stats, hmiddle⟩
    | delivered =>
      rw [withNetwork, hmiddle]
      exact ⟨generator, _, rfl⟩
    | undeliverable =>
      rw [withNetwork, hmiddle]
      exact ⟨generator, _, rfl⟩
    | send envelope =>
      obtain ⟨next, counted, hsend⟩ := middle.network_send envelope
      rw [hsend, hmiddle]
      exact ⟨next, counted, rfl⟩

/-- Neither does the turn of a task change anything else of it. -/
theorem network_takeTurn (world : World σ k) (position : Nat) :
    ∃ generator stats,
      (world.takeTurn position).network = { world.network with generator, stats } := by
  obtain ⟨ready, middle, agenda, htouches, hturn⟩ := world.touches_takeTurn position
  rw [hturn]
  exact htouches.network

/-- What every move makes of the configuration of the network, and of whether it can be reached. -/
theorem settings_step (world : World σ k) (move : Move k) :
    (world.step move).network.config = move.reconfigure world.network.config ∧
      (world.step move).network.isOpen = (!move.closes && world.network.isOpen) := by
  have hkept : ∀ after : World σ k,
      (∃ generator stats, after.network = { world.network with generator, stats }) →
        after.network.config = world.network.config ∧
          after.network.isOpen = world.network.isOpen := by
    rintro after ⟨generator, stats, hnetwork⟩
    rw [hnetwork]
    exact ⟨rfl, rfl⟩
  cases move with
  | send envelope => exact hkept _ (world.network_send envelope)
  | broadcast index id kind payload =>
    rw [step, afterwards_broadcast]
    exact hkept _ (world.touches_acted index _).network
  | receive index message sender =>
    rw [step, afterwards_receive]
    exact hkept _ (world.touches_acted index _).network
  | gossipRound index =>
    rw [step, afterwards_gossipRound]
    exact hkept _ (world.touches_acted index _).network
  | turn position => exact hkept _ (world.network_takeTurn position)
  | join node protocol =>
    simp only [step, join, register, Network.register]
    split <;> exact ⟨rfl, rfl⟩
  | register id endpoint =>
    simp only [step, register, Network.register]
    split <;> exact ⟨rfl, rfl⟩
  | setDropRate dropRate =>
    simp only [step, Network.setDropRate, NetworkConfig.checkDropRate, Move.reconfigure]
    split <;> exact ⟨rfl, rfl⟩
  | _ => exact ⟨rfl, rfl⟩

/-- Nodes can reach the network until it is closed. -/
theorem isOpen_run (hopen : world.network.isOpen = true) {moves : List (Move k)}
    (h : ∀ move ∈ moves, move.closes = false) : (world.run moves).network.isOpen = true := by
  have hstep : ∀ later : World σ k, ∀ move ∈ moves, later.network.isOpen = true →
      (later.step move).network.isOpen = true := by
    intro later move hmem hbefore
    rw [(later.settings_step move).2, h move hmem, hbefore]
    rfl
  exact run_preserves hstep hopen

/-! ## Names -/

omit [Random.Source σ] in
/-- The names of the nodes depend on the members alone. -/
theorem names_congr (h : after.members = world.members) :
    after.nodes.map (·.id) = world.nodes.map (·.id) := by
  rw [nodes, h, nodes]

/-- A node keeps its name, whatever is done to it. -/
theorem names_acted (world : World σ k) (index : Nat) (deed : Deed) :
    (world.acted index deed).nodes.map (·.id) = world.nodes.map (·.id) := by
  cases hat : world.members[index]? with
  | none => rw [acted_of_none hat]
  | some member => exact names_set hat (members_acted hat deed)

/-- Nodes keep their names in every passage. -/
theorem Passage.names {made : List Message} {batches : List Batch}
    (h : world.Passage made batches after) :
    after.nodes.map (·.id) = world.nodes.map (·.id) := by
  induction h with
  | refl => rfl
  | step _ hchange ih =>
    refine Eq.trans ?_ ih
    cases hchange with
    | still hmembers _ => exact names_congr hmembers
    | deed hat _ hmembers _ => exact names_set hat hmembers
    | unheard _ _ hmembers _ => exact names_congr hmembers

/-- Nodes keep their names and their order in every move, and there are no others unless one joins. -/
theorem names_step (world : World σ k) {move : Move k} (h : move.joins = false) :
    (world.step move).nodes.map (·.id) = world.nodes.map (·.id) := by
  cases hinternal : move.isInternal with
  | true => exact (world.passage_step hinternal).names
  | false =>
    cases move with
    | send envelope => exact names_congr (send_spec world envelope).1
    | receive index message sender =>
      rw [step, afterwards_receive]
      exact world.names_acted index _
    | register id endpoint =>
      simp only [step, register, Network.register]
      split <;> exact names_congr rfl
    | join => cases h
    | _ => cases hinternal

/-- Nodes keep their names and their order in every move, and those that join come after them. -/
theorem names_prefix_step (world : World σ k) (move : Move k) :
    world.nodes.map (·.id) <+: (world.step move).nodes.map (·.id) := by
  cases hjoins : move.joins with
  | false => rw [names_step world hjoins]
  | true =>
    cases move with
    | join node protocol =>
      simp only [step, join, register, Network.register]
      split
      · exact List.prefix_refl _
      · exact (((List.prefix_append world.members _).map (·.node)).map (·.id))
    | _ => cases hjoins

/-- So do they in every run. -/
theorem names_prefix_run (world : World σ k) (moves : List (Move k)) :
    world.nodes.map (·.id) <+: (world.run moves).nodes.map (·.id) := by
  have hstep : ∀ later : World σ k, ∀ move ∈ moves,
      world.nodes.map (·.id) <+: later.nodes.map (·.id) →
        world.nodes.map (·.id) <+: (later.step move).nodes.map (·.id) :=
    fun later move _ hprefix => hprefix.trans (later.names_prefix_step move)
  exact run_preserves hstep (List.prefix_refl _)

/-- In a run of moves by which no node joins there are no others. -/
theorem names_run (world : World σ k) {moves : List (Move k)}
    (h : ∀ move ∈ moves, move.joins = false) :
    (world.run moves).nodes.map (·.id) = world.nodes.map (·.id) := by
  have hstep : ∀ later : World σ k, ∀ move ∈ moves,
      later.nodes.map (·.id) = world.nodes.map (·.id) →
        (later.step move).nodes.map (·.id) = world.nodes.map (·.id) :=
    fun later move hmem hsame => (later.names_step (h move hmem)).trans hsame
  exact run_preserves hstep rfl

end World

end Epidemic
