import Epidemic.Proofs.Simulation.Distance
import Epidemic.Proofs.Simulation.Shutdown
import Epidemic.Proofs.World.Ticking

/-!
# When a simulation holds rumor rounds

The first round of all nodes comes when the interval has passed for the first time, and from then on
there is one whenever it has passed again. Broadcasts, deliveries and settings of the network do not
put it off, however much time is to pass at once. When a simulation is shut down, or all its nodes
are, no further round is held.
-/

namespace Epidemic.Simulation

open World (schedule)

variable {σ : Type}

/-- Whether something that happens leaves rumor rounds to the agenda, and lets no time pass in which
a task is to have its turn. -/
def Occurrence.isRegular (world : World σ 1) : Occurrence → Bool
  | .broadcastFrom _ _ _ _ | .shutdown => true
  | .happens move _ => move.isRegular world

/-- Nothing that is regular comes down to rounds that are held by hand. -/
theorem Occurrence.ne_gossipRound_of_mem_moves {simulation : Simulation σ}
    {occurrence : Occurrence} (hregular : occurrence.isRegular simulation.world = true)
    {move : Move 1} (hmem : move ∈ occurrence.moves simulation) (index : Nat) :
    move ≠ .gossipRound index := by
  rintro rfl
  cases occurrence with
  | broadcastFrom origin id kind payload =>
    rw [moves, Option.mem_toList, Option.map_eq_some_iff] at hmem
    obtain ⟨_, -, hmove⟩ := hmem
    cases hmove
  | shutdown =>
    rcases List.mem_cons.mp hmem with hstop | hshutdown
    · cases hstop
    · obtain ⟨_, -, hmove⟩ := List.mem_map.mp hshutdown
      cases hmove
  | happens move hinternal =>
    cases List.mem_singleton.mp hmem
    cases hregular

variable [Random.Source σ]

/-- Whether everything that happens in a simulation is regular: broadcasts are made, tasks have their
turn in any order, time passes only when they have had it, the network is set otherwise, and nodes
or the whole simulation are shut down; no rumor round is held, begun or ended by hand. -/
def isRegular (simulation : Simulation σ) : List Occurrence → Bool
  | [] => true
  | occurrence :: rest =>
    occurrence.isRegular simulation.world && (simulation.proceed occurrence).isRegular rest

/-- Whether a simulation becomes another one in a regular run. -/
def LeadsTo (simulation later : Simulation σ) : Prop :=
  ∃ occurrences, simulation.isRegular occurrences = true ∧
    simulation.proceedAll occurrences = later

/-- In a regular run rumor rounds are written down when nodes have them, and only then. -/
theorem notesRounds_proceedAll {simulation : Simulation σ} {occurrences : List Occurrence}
    (hregular : simulation.isRegular occurrences = true) :
    simulation.world.NotesRounds (simulation.proceedAll occurrences).world := by
  induction occurrences generalizing simulation with
  | nil => exact .refl
  | cons occurrence rest ih =>
    rw [isRegular, Bool.and_eq_true] at hregular
    have hfirst := simulation.world.notesRounds_run fun move hmem =>
      ⟨Occurrence.isInternal_of_mem_moves hmem,
        Occurrence.ne_gossipRound_of_mem_moves hregular.1 hmem⟩
    rw [← world_proceed] at hfirst
    exact hfirst.trans (ih hregular.2)

/-! ## Ticking simulations -/

variable {count interval held : Nat} {simulation : Simulation σ}

omit [Random.Source σ] in
/-- When a simulation is shut down there are no rounds to come. -/
theorem ticking_shutdown (h : simulation.world.Ticking count interval held) :
    simulation.shutdown.world.Ticking count interval held where
  prompt :=
    have hstopped := h.prompt.stopRounds
    ⟨hstopped.sorted, hstopped.due, hstopped.repeats⟩
  length := (List.length_map _).trans h.length
  rounds := h.rounds
  past := h.past
  next := Or.inr ⟨simulation.world.ticks_stopRounds, simulation.isDown_shutdown⟩

/-- With everything regular that happens a simulation goes on ticking; if all nodes are down no
further rounds are held. -/
theorem ticking_proceed (h : simulation.world.Ticking count interval held)
    {occurrence : Occurrence} (hregular : occurrence.isRegular simulation.world = true) :
    ∃ next, (simulation.proceed occurrence).world.Ticking count interval next ∧
      (simulation.world.IsDown → next = held) := by
  cases occurrence with
  | broadcastFrom origin id kind payload =>
    rw [world_proceed, Occurrence.moves]
    cases simulation.indexOf? origin with
    | none => exact ⟨held, h, fun _ => rfl⟩
    | some index =>
      have hmove : (Move.broadcast index id kind payload).isRegular simulation.world = true := rfl
      exact h.step hmove
  | shutdown => exact ⟨held, ticking_shutdown h, fun _ => rfl⟩
  | happens move hinternal => exact h.step hregular

/-- In a regular run a simulation goes on ticking; if all nodes are down no further rounds are
held. -/
theorem ticking_proceedAll (h : simulation.world.Ticking count interval held)
    {occurrences : List Occurrence} (hregular : simulation.isRegular occurrences = true) :
    ∃ next, (simulation.proceedAll occurrences).world.Ticking count interval next ∧
      (simulation.world.IsDown → next = held) := by
  induction occurrences generalizing simulation held with
  | nil => exact ⟨held, h, fun _ => rfl⟩
  | cons occurrence rest ih =>
    rw [isRegular, Bool.and_eq_true] at hregular
    obtain ⟨middle, hmiddle, hsame⟩ := ticking_proceed h hregular.1
    obtain ⟨next, hnext, hover⟩ := ih hmiddle hregular.2
    refine ⟨next, hnext, fun hdown => (hover ?_).trans (hsame hdown)⟩
    exact (rests_proceedAll hdown [occurrence]).isDown hdown

/-- When all nodes of a ticking simulation are down no further rounds are held in a regular run. -/
theorem rounds_of_isDown (h : simulation.world.Ticking count interval held)
    (hdown : simulation.world.IsDown) {later : List Occurrence}
    (hregular : simulation.isRegular later = true) :
    (simulation.proceedAll later).world.rounds = simulation.world.rounds := by
  obtain ⟨next, hnext, hsame⟩ := ticking_proceedAll h hregular
  rw [hnext.rounds, hsame hdown, h.rounds]

/-! ## The start -/

/-- The agenda of a simulation that was set up holds the first rumor rounds, if there are any and
there is a clock. -/
theorem agenda_of_new {config : SimulationConfig} (hvalid : config.check = .ok ())
    {generators : Generators σ} {hasClock : Bool} {wall : Nat} {start : Simulation σ}
    (hnew : Simulation.new config generators hasClock wall = .ok start) :
    start.world.agenda =
      if 0 < config.rumorRounds && hasClock then
        Agenda.empty.schedule config.rumorIntervalMillis (.rounds config.rumorIntervalMillis)
      else .empty := by
  rw [new_eq hvalid] at hnew
  cases hnew
  unfold wired
  dsimp only
  rw [foldl_connect]
  split <;> rfl

/-- When a simulation with rumor rounds is set up, the first one is due after the interval. -/
theorem ticking_of_new {config : SimulationConfig} (hvalid : config.check = .ok ())
    (hrounds : 0 < config.rumorRounds) {generators : Generators σ} {wall : Nat}
    {start : Simulation σ} (hfounded : start.Founded config generators true)
    (hnew : Simulation.new config generators true wall = .ok start) :
    start.world.Ticking config.nodeCount config.rumorIntervalMillis 0 := by
  have hpositive := rumorInterval_pos hvalid hrounds
  have hagenda := agenda_of_new hvalid hnew
  rw [decide_eq_true hrounds, Bool.and_true, if_pos rfl] at hagenda
  have hfirst : start.world.agenda =
      ⟨0, [], [(config.rumorIntervalMillis, .rounds config.rumorIntervalMillis)]⟩ := by
    rw [hagenda, Agenda.schedule, Agenda.empty, Nat.zero_add]
    rfl
  have hmultiple : (0 + 1) * config.rumorIntervalMillis = config.rumorIntervalMillis := by
    rw [Nat.zero_add, Nat.one_mul]
  refine ⟨⟨?_, ?_, ?_⟩, hfounded.meshed.length, ?_, ?_, Or.inl ⟨?_, ?_⟩⟩
  · rw [hfirst]
    exact List.pairwise_singleton _ _
  · rw [hfirst]
    exact fun _ _ => Nat.zero_le _
  · rw [hfirst]
    intro task hmem
    rw [List.mem_singleton.mp hmem]
    exact fun heq => absurd (Task.rounds.inj heq) (Nat.ne_of_gt hpositive)
  · rw [World.rounds, hfounded.journal]
    rfl
  · rw [Nat.zero_mul]
    exact Nat.zero_le _
  · rw [World.ticks, hfirst, hmultiple]
    rfl
  · rw [hfirst]
    exact Nat.zero_le _

/-! ## The passage of time is regular -/

/-- Ticks are regular if they are punctual. -/
theorem isRegular_ticking (simulation : Simulation σ) {moves : List (Move 1)}
    (h : ∀ move ∈ moves, move.isTick = true) (hpunctual : simulation.world.isPunctual moves = true) :
    simulation.isRegular (ticking moves h) = true := by
  induction moves generalizing simulation with
  | nil => rfl
  | cons move rest ih =>
    rw [World.isPunctual, Bool.and_eq_true] at hpunctual
    have hfirst := Move.isRegular_of_isTick (h move List.mem_cons_self) hpunctual.1
    have hrest := ih { simulation with world := simulation.world.step move }
      (fun other hmem => h other (List.mem_cons_of_mem move hmem)) hpunctual.2
    exact Bool.and_eq_true_iff.mpr ⟨hfirst, hrest⟩

/-- What comes punctually of the world of a simulation comes of a regular run. -/
theorem leadsTo_of_isPromptlyLater {later : World σ 1}
    (h : simulation.world.IsPromptlyLater later) :
    simulation.LeadsTo { simulation with world := later } := by
  obtain ⟨moves, hticks, hpunctual, rfl⟩ := h
  exact ⟨ticking moves hticks, simulation.isRegular_ticking hticks hpunctual,
    simulation.proceedAll_ticking hticks⟩

/-! ## The rounds -/

/-- In a simulation with rumor rounds and a clock, the rounds that have been held are those of all
nodes, in their order, at the first multiples of the interval, and there are no others. As long as
some node is up, none of them is missing: the next multiple lies ahead, or the clock has just reached
it and has tasks that are still to have their turn. The nodes have had these rounds and no others.
What was held stays held. No further round is held when all nodes are down, nor when the simulation
has been shut down, whatever was under way.

All of this holds in every regular run, and the passage of time is regular: the tasks whose time has
come may have their turn, any time may pass when they have had it, and agreement may be waited
for. -/
theorem rumor_rounds_go_by_the_clock {config : SimulationConfig} (hvalid : config.check = .ok ())
    (hrounds : 0 < config.rumorRounds) (generators : Generators σ) (wall : Nat) :
    ∃ start, Simulation.new config generators true wall = .ok start ∧
      ∀ occurrences, start.isRegular occurrences = true →
        let reached := start.proceedAll occurrences
        let now := reached.world.agenda.now
        let interval := config.rumorIntervalMillis
        (∃ held, reached.world.rounds = schedule config.nodeCount interval held ∧
          held * interval ≤ now ∧
          (¬reached.world.IsDown → now < (held + 1) * interval ∨
            now = (held + 1) * interval ∧ reached.world.agenda.isCaughtUp = false)) ∧
        start.world.NotesRounds reached.world ∧
        (∀ later, reached.world.rounds <+: (reached.proceedAll later).world.rounds) ∧
        (reached.world.IsDown → ∀ later, reached.isRegular later = true →
          (reached.proceedAll later).world.rounds = reached.world.rounds) ∧
        (∀ later, reached.shutdown.isRegular later = true →
          (reached.shutdown.proceedAll later).world.rounds = reached.world.rounds) ∧
        (reached.LeadsTo reached.catchUp ∧ reached.catchUp.world.agenda.isCaughtUp = true) ∧
        (reached.world.agenda.isCaughtUp = true → ∀ millis,
          reached.LeadsTo (reached.advance millis) ∧
            (reached.advance millis).world.agenda.isCaughtUp = true) ∧
        ∀ key timeout, reached.LeadsTo (reached.wait key timeout).2 := by
  obtain ⟨start, hnew, hfounded⟩ := exists_founded hvalid generators true wall
  refine ⟨start, hnew, fun occurrences hregular => ?_⟩
  intro reached now interval
  have hstart := ticking_of_new hvalid hrounds hfounded hnew
  obtain ⟨held, hticking, -⟩ := ticking_proceedAll hstart hregular
  have hprompt := hticking.prompt
  refine ⟨⟨held, hticking.rounds, hticking.past, hticking.of_isUp⟩,
    notesRounds_proceedAll hregular, fun later => ?_,
    fun hdown later hlater => rounds_of_isDown hticking hdown hlater, fun later hlater => ?_,
    ⟨leadsTo_of_isPromptlyLater hprompt.catchUp.1, hprompt.catchUp.2⟩,
    fun hcaught millis => ?_, fun key timeout => ?_⟩
  · rw [reached.world_proceedAll later]
    exact reached.world.rounds_prefix_run _
  · have hstopped := ticking_shutdown hticking
    exact rounds_of_isDown hstopped reached.isDown_shutdown hlater
  · obtain ⟨hadvance, hstill⟩ := hprompt.advance hcaught millis
    exact ⟨leadsTo_of_isPromptlyLater hadvance, hstill⟩
  · exact leadsTo_of_isPromptlyLater (hprompt.wait (reached.watch key) _ 0)

/-- A node is shut down. -/
def retire (index : Nat) : Occurrence := .happens (.shutdown index) rfl

/-- A broadcast, a rumor round while it is under way, and another one after a node was shut down. -/
def ticked : List Occurrence :=
  .broadcastFrom "node-1" "first" "update" [("key", .int 1)] ::
    (handedOver ++ (List.replicate 5 elapsed).flatten ++
      retire 0 :: (List.replicate 5 elapsed).flatten)

/-- With an interval of five milliseconds, all three nodes have had a round after five and after ten
of them. None is held at the third multiple when the simulation is shut down before. -/
theorem rumor_rounds_go_by_the_clock_ticked :
    ∃ start,
      Simulation.new trio (⟨⟨[]⟩, ⟨[]⟩, ⟨[]⟩⟩ : Generators Random.Script) true 0 = .ok start ∧
      let reached := start.proceedAll ticked
      let after := reached.shutdown.proceedAll (List.replicate 6 elapsed).flatten
      reached.world.rounds = [(5, 0), (5, 1), (5, 2), (10, 0), (10, 1), (10, 2)] ∧
      after.world.agenda.now = 16 ∧ after.world.rounds = reached.world.rounds := by
  have hvalid : trio.check = .ok () := rfl
  obtain ⟨start, hnew, hticks⟩ := rumor_rounds_go_by_the_clock hvalid (by decide)
    (⟨⟨[]⟩, ⟨[]⟩, ⟨[]⟩⟩ : Generators Random.Script) 0
  have hfacts : (Simulation.new trio (⟨⟨[]⟩, ⟨[]⟩, ⟨[]⟩⟩ : Generators Random.Script) true
      0).toOption.map (fun start =>
        let reached := start.proceedAll ticked
        let shut := reached.shutdown
        let later := (List.replicate 6 elapsed).flatten
        (start.isRegular ticked, reached.world.agenda.now, reached.world.agenda.isCaughtUp,
          reached.world.nodes.map (·.isDown), shut.isRegular later,
          (shut.proceedAll later).world.agenda.now)) =
      some (true, 10, true, [true, false, false], true, 16) := by
    decide +kernel
  rw [hnew] at hfacts
  have hfacts := Option.some.inj hfacts
  simp only [Prod.mk.injEq] at hfacts
  obtain ⟨hregular, hnow, hcaught, hnodes, hlater, hend⟩ := hfacts
  obtain ⟨⟨held, hrounds, hpast, hdue⟩, -, -, -, hshut, -⟩ := hticks ticked hregular
  have hup : ¬(start.proceedAll ticked).world.IsDown := by
    intro hdown
    have hall : ∀ isDown ∈ (start.proceedAll ticked).world.nodes.map (·.isDown), isDown = true :=
      List.forall_mem_map.mpr hdown
    rw [hnodes] at hall
    exact absurd (hall false (by decide)) (by decide)
  have hinterval : trio.rumorIntervalMillis = 5 := rfl
  have hahead := (hdue hup).resolve_right fun hbusy => by
    rw [hcaught] at hbusy
    cases hbusy.2
  rw [hnow, hinterval] at hpast hahead
  have hheld : held = 2 := by omega
  rw [hheld] at hrounds
  exact ⟨start, hnew, hrounds, hend, hshut _ hlater⟩

end Epidemic.Simulation
