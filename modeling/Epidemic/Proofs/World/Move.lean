import Epidemic.Convergence.Wait

/-!
# Everything that can happen in a world

A move is one thing that is done to a world: by whoever drives it, by one of its nodes, by the
passage of time, or by a task that has its turn. Any ready task may have its turn next, so runs of
moves cover every order in which tasks can be carried out. The order that the agenda prescribes is
one of them: settling, the passage of time and waiting are runs of ticks.
-/

namespace Epidemic

/-- One thing that is done to a world with `k` protocols. -/
inductive Move (k : Nat) where
  /-- A send is handed to the network from outside. -/
  | send (envelope : Envelope)
  /-- A node makes a broadcast. -/
  | broadcast (index : Nat) (id : MessageId) (kind : String) (payload : Payload)
  /-- A node is given a message from outside. -/
  | receive (index : Nat) (message : Message) (sender : NodeId)
  /-- A node has a rumor round of its own. -/
  | gossipRound (index : Nat)
  /-- A node gets a peer. -/
  | addPeer (index : Nat) (peer : NodeId)
  /-- A node is shut down. -/
  | shutdown (index : Nat)
  /-- A node joins and is registered. -/
  | join (node : Node) (protocol : Fin k)
  /-- An endpoint is registered. -/
  | register (id : NodeId) (endpoint : Endpoint)
  /-- The endpoint under an id is taken away. -/
  | unregister (id : NodeId)
  /-- The delay of the sends to come is set. -/
  | setLatency (latency : Duration)
  /-- The further delay of the sends to come is bounded. -/
  | setJitter (jitter : Duration)
  /-- The loss rate of the sends to come is set, or refused. -/
  | setDropRate (rate : Binary64)
  /-- From now on there is a clock for deliveries, or there is none. -/
  | setClock (hasClock : Bool)
  /-- Nodes cannot reach the network any more. -/
  | close
  /-- Rumor rounds of all nodes begin. -/
  | startRounds (interval : Nat)
  /-- The rumor rounds of all nodes end. -/
  | stopRounds
  /-- The ready task at a position has its turn. -/
  | turn (position : Nat)
  /-- The tasks whose time has come become ready. -/
  | fire
  /-- The clock moves on. -/
  | pass (millis : Nat)
  /-- The wall clock is set. -/
  | setWall (wall : Nat)

namespace Move

variable {k : Nat}

/-- Whether a move belongs to the passage of time: the clock moves on, tasks become ready and have
their turn. -/
def isTick : Move k → Bool
  | .turn _ => true
  | .fire => true
  | .pass _ => true
  | _ => false

end Move

namespace World

variable {σ : Type} {k : Nat}

/-- The world that an operation leads to; if the operation is not possible the world stays. -/
def afterwards {α : Type} (world : World σ k) : Option (α × World σ k) → World σ k
  | none => world
  | some (_, after) => after

/-- The world that an operation leads to; if the operation is refused the world stays. -/
def unlessRefused (world : World σ k) : Except Fault (World σ k) → World σ k
  | .error _ => world
  | .ok after => after

/-- Puts the network into another state. -/
def withNetwork (world : World σ k) (network : Network σ) : World σ k := { world with network }

variable [Random.Source σ]

/-- The turn of the ready task at a position. -/
def takeTurn (world : World σ k) (position : Nat) : World σ k :=
  match world.agenda.ready[position]? with
  | none => world
  | some task => (world.withReady (world.agenda.ready.eraseIdx position)).perform task

/-- What a move makes of a world. -/
def step (world : World σ k) : Move k → World σ k
  | .send envelope => world.send envelope
  | .broadcast index id kind payload => world.afterwards (world.broadcast index id kind payload)
  | .receive index message sender => world.afterwards (world.receive index message sender)
  | .gossipRound index => world.afterwards (world.gossipRound index)
  | .addPeer index peer => world.modifyNode index fun node => (node.addPeer peer).2
  | .shutdown index => world.modifyNode index Node.shutdown
  | .join node protocol => world.unlessRefused (world.join node protocol)
  | .register id endpoint => world.unlessRefused (world.register id endpoint)
  | .unregister id => world.withNetwork (world.network.unregister id).2
  | .setLatency latency => world.withNetwork (world.network.setLatency latency)
  | .setJitter jitter => world.withNetwork (world.network.setJitter jitter)
  | .setDropRate rate =>
    world.unlessRefused ((world.network.setDropRate rate).map world.withNetwork)
  | .setClock hasClock => world.withNetwork { world.network with hasClock }
  | .close => world.withNetwork world.network.close
  | .startRounds interval => world.startRounds interval
  | .stopRounds => world.stopRounds
  | .turn position => world.takeTurn position
  | .fire => { world with agenda := world.agenda.fire }
  | .pass millis => world.pass millis
  | .setWall wall => { world with wall }

/-- What a list of moves makes of a world, one after the other. -/
def run (world : World σ k) (moves : List (Move k)) : World σ k := moves.foldl step world

/-- A run goes on where another one has ended. -/
theorem run_append (world : World σ k) (earlier later : List (Move k)) :
    world.run (earlier ++ later) = (world.run earlier).run later :=
  List.foldl_append

/-- What every move preserves every run preserves. -/
theorem run_preserves {holds : World σ k → Prop} {moves : List (Move k)} {world : World σ k}
    (hstep : ∀ world, ∀ move ∈ moves, holds world → holds (world.step move))
    (hstart : holds world) :
    holds (world.run moves) := by
  induction moves generalizing world with
  | nil => exact hstart
  | cons move rest ih =>
    refine ih (fun world other hmem => hstep world other (List.mem_cons_of_mem move hmem)) ?_
    exact hstep world move List.mem_cons_self hstart

/-! ## The agenda's own order -/

/-- The turn of the first ready task. -/
theorem takeTurn_zero {world : World σ k} {task : Task} {rest : List Task}
    (h : world.agenda.ready = task :: rest) :
    world.takeTurn 0 = (world.withReady rest).perform task := by
  simp only [takeTurn, h, List.getElem?_cons_zero, List.eraseIdx_cons_zero]

/-- Settling begins with the turn of the first ready task. -/
theorem settle_of_ready_eq_cons {world : World σ k} {task : Task} {rest : List Task}
    (h : world.agenda.ready = task :: rest) :
    world.settle = ((world.withReady rest).perform task).settle := by
  rw [settle]
  split
  · rename_i hnil
    rw [h] at hnil
    cases hnil
  · rename_i first others hcons
    rw [h] at hcons
    cases hcons
    rfl

/-- Whether a world comes from another one by ticks alone. -/
def IsLater (world later : World σ k) : Prop :=
  ∃ moves : List (Move k), (∀ move ∈ moves, move.isTick = true) ∧ later = world.run moves

/-- Every world comes from itself. -/
theorem isLater_refl (world : World σ k) : world.IsLater world :=
  ⟨[], fun _ h => absurd h List.not_mem_nil, rfl⟩

/-- A tick leads to a later world. -/
theorem isLater_step (world : World σ k) (move : Move k) (h : move.isTick = true) :
    world.IsLater (world.step move) :=
  ⟨[move], fun other hmem => by rw [List.mem_singleton.mp hmem]; exact h, rfl⟩

/-- Ticks may be followed by ticks. -/
theorem isLater_trans {first second third : World σ k} (h : first.IsLater second)
    (h' : second.IsLater third) : first.IsLater third := by
  obtain ⟨earlier, hearlier, rfl⟩ := h
  obtain ⟨later, hlater, rfl⟩ := h'
  refine ⟨earlier ++ later, fun move hmem => ?_, (run_append first earlier later).symm⟩
  exact (List.mem_append.mp hmem).elim (hearlier move) (hlater move)

/-- Settling is a run of turns, each of the task that is the first in the queue. -/
theorem isLater_settle (world : World σ k) : world.IsLater world.settle := by
  induction world using settle.induct with
  | case1 world hready =>
    rw [settle_of_ready_eq_nil hready]
    exact isLater_refl world
  | case2 world task rest hready ih =>
    have hturn : world.step (.turn 0) = (world.withReady rest).perform task := takeTurn_zero hready
    rw [settle_of_ready_eq_cons hready, ← hturn]
    rw [← hturn] at ih
    exact isLater_trans (isLater_step world _ rfl) ih

/-- Catching up is a run of ticks. -/
theorem isLater_catchUp (world : World σ k) : world.IsLater world.catchUp :=
  isLater_trans (isLater_step world .fire rfl) (isLater_settle _)

/-- The passage of time is a run of ticks. -/
theorem isLater_advance (world : World σ k) (millis : Nat) :
    world.IsLater (world.advance millis) := by
  induction millis generalizing world with
  | zero =>
    rw [advance_zero]
    exact isLater_refl world
  | succ millis ih =>
    rw [advance_succ]
    have hpass : world.IsLater (world.pass 1) := isLater_step world (.pass 1) rfl
    exact isLater_trans (isLater_trans hpass (isLater_catchUp _)) (ih _)

/-- Waiting for agreement is a run of ticks. -/
theorem isLater_wait (watch : Convergence.Watch) (left elapsed : Nat) (world : World σ k) :
    world.IsLater (watch.wait left elapsed world).2 := by
  induction left generalizing elapsed world with
  | zero =>
    rw [Convergence.Watch.wait_zero]
    exact isLater_refl world
  | succ left ih =>
    rw [Convergence.Watch.wait_succ]
    split
    · exact isLater_refl world
    · have hpass : world.catchUp.IsLater (world.catchUp.pass 1) :=
        isLater_step world.catchUp (.pass 1) rfl
      exact isLater_trans (isLater_trans (isLater_catchUp world) hpass) (ih _ _)

end World

end Epidemic
