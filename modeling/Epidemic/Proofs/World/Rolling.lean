import Epidemic.Proofs.Binary64
import Epidemic.Proofs.World.Isolation
import Epidemic.Proofs.World.Journal
import Epidemic.Proofs.World.Standing

/-!
# Deciding about a send is safe

What decides about a send asks for things that are not to be had of every number: an event needs a
probability, a choice needs something to choose from, and a duration has a greatest length. There is
always a decision, because no loss rate but a probability is ever set. The delays that are decided on
lie between the latency and its sum with the jitter.
-/

namespace Epidemic

namespace Duration

/-- Microseconds that fit 64 bits are not too long for a duration. -/
theorem ofMicros?_eq {micros : Nat} (h : micros < Width.words64) :
    ofMicros? micros = some (ofMicros micros) := by
  have hfits : 1000 * micros < Width.words64 * 1000000000 := by omega
  rw [ofMicros?, dif_pos ⟨h, hfits⟩, ofMicros, clamp, dif_pos hfits]

/-- Microseconds that fit 64 bits have their length. -/
theorem nanos_ofMicros {micros : Nat} (h : micros < Width.words64) :
    (ofMicros micros).nanos = 1000 * micros := by
  have hfits : 1000 * micros < Width.words64 * 1000000000 := by omega
  rw [ofMicros, clamp, dif_pos hfits]

/-- No duration is longer than the greatest. -/
theorem nanos_le (d : Duration) : d.nanos ≤ greatest.nanos := Nat.le_pred_of_lt d.nanos_lt

/-- A sum has its length, or that of the greatest duration if this is less. -/
theorem nanos_add (a b : Duration) : (a.add b).nanos = min (a.nanos + b.nanos) greatest.nanos := by
  have hgreatest : greatest.nanos + 1 = Width.words64 * 1000000000 := rfl
  rw [add, clamp]
  split
  · dsimp only
    omega
  · omega

end Duration

namespace Random

variable {σ : Type}

/-- An event can be asked for with the numbers from zero to one, and with no others. -/
theorem chance?_eq_some_iff [Source σ] {probability : Binary64} {state : σ} :
    chance? probability state = some (chance probability state) ↔ probability.InUnitInterval := by
  rw [chance?, ← Binary64.isProbability_iff]
  split
  · rename_i h
    exact iff_of_true rfl h
  · rename_i h
    exact iff_of_false nofun h

/-- From zero on there is always something to choose from. -/
theorem pickBetween?_zero [Chooser σ] (greatest : Nat) (state : σ) :
    pickBetween? 0 greatest state =
      some ((Chooser.pick greatest state).1.val, (Chooser.pick greatest state).2) := by
  rw [pickBetween?, if_pos (Nat.zero_le greatest)]
  exact congrArg (fun choice => some (choice, _)) (Nat.zero_add _)

end Random

namespace Network

variable {σ : Type} [Random.Source σ]

/-! ## Further delays -/

/-- A further delay can be drawn for every jitter. -/
theorem drawExtra?_eq (jitter : Duration) (generator : σ) :
    drawExtra? jitter generator = some (drawExtra jitter generator) := by
  rw [drawExtra?, drawExtra]
  split
  · rfl
  · split
    · rename_i hfits
      have hle := Nat.le_of_lt_succ (Random.Chooser.pick jitter.micros generator).1.isLt
      have hextra := Duration.ofMicros?_eq (Nat.lt_of_le_of_lt hle hfits)
      simp only [Random.pickBetween?_zero, Option.bind_eq_bind, Option.bind_some, hextra]
      rfl
    · rfl

/-- A further delay is no longer than the jitter. -/
theorem nanos_drawExtra_le (jitter : Duration) (generator : σ) :
    (drawExtra jitter generator).1.nanos ≤ jitter.nanos := by
  rw [drawExtra]
  split
  · exact Nat.zero_le _
  · split
    · rename_i hfits
      have hle := Nat.le_of_lt_succ (Random.Chooser.pick jitter.micros generator).1.isLt
      have hnanos := Duration.nanos_ofMicros (Nat.lt_of_le_of_lt hle hfits)
      have hmicros : jitter.micros = jitter.nanos / 1000 := rfl
      dsimp only
      omega
    · exact Nat.le_refl _

/-! ## Decisions -/

variable {config : NetworkConfig}

/-- If the loss rate is a number from zero to one, there is a decision about every send. -/
theorem roll?_eq (h : config.dropRate.InUnitInterval) (generator : σ) :
    roll? config generator = some (roll config generator) := by
  have hloss : drawLoss? config.dropRate generator =
      some (if config.dropRate.isPositive then Random.chance config.dropRate generator
        else (false, generator)) := by
    rw [drawLoss?, Random.chance?_eq_some_iff.mpr h, ← apply_ite some]
  rw [roll?, roll, hloss, Option.bind_eq_bind, Option.bind_some]
  generalize (if config.dropRate.isPositive then Random.chance config.dropRate generator
    else (false, generator)) = chance
  obtain ⟨isLost, after⟩ := chance
  cases isLost with
  | true => rfl
  | false =>
    simp only [drawExtra?_eq]
    rfl

/-- A send is lost only if the loss rate is positive. -/
theorem isPositive_of_roll {generator : σ} (h : (roll config generator).1 = none) :
    config.dropRate.isPositive = true := by
  by_contra hnot
  rw [roll, if_neg hnot] at h
  cases h

/-- The delay of a send is at least the latency and at most its sum with the jitter. -/
theorem nanos_of_roll {generator : σ} {delay : Duration}
    (h : (roll config generator).1 = some delay) :
    config.latency.nanos ≤ delay.nanos ∧
      delay.nanos ≤ min (config.latency.nanos + config.jitter.nanos) Duration.greatest.nanos := by
  obtain ⟨drawn, rfl⟩ := exists_of_roll h
  have hextra := nanos_drawExtra_le config.jitter drawn
  have hlatency := config.latency.nanos_le
  rw [Duration.nanos_add]
  omega

end Network

/-! ## Settings -/

namespace Move

variable {k : Nat}

/-- A loss rate that is a number from zero to one remains one. -/
theorem inUnitInterval_reconfigure {config : NetworkConfig} (h : config.dropRate.InUnitInterval)
    (move : Move k) : (move.reconfigure config).dropRate.InUnitInterval := by
  cases move with
  | setDropRate dropRate =>
    rw [reconfigure]
    split
    · rename_i hprobability
      exact Binary64.isProbability_iff.mp hprobability
    · exact h
  | _ => exact h

end Move

namespace World

variable {σ : Type} {k : Nat} [Random.Source σ]

/-- The configuration of the network is what the moves have made of it. -/
theorem config_run (world : World σ k) (moves : List (Move k)) :
    (world.run moves).network.config =
      moves.foldl (fun config move => move.reconfigure config) world.network.config := by
  induction moves generalizing world with
  | nil => rfl
  | cons move rest ih =>
    have hfirst := (world.settings_step move).1
    rw [List.foldl_cons, ← hfirst]
    exact ih (world.step move)

/-- Whatever moves are made, a loss rate that is a number from zero to one remains one. -/
theorem inUnitInterval_run {world : World σ k} (h : world.network.config.dropRate.InUnitInterval)
    (moves : List (Move k)) : (world.run moves).network.config.dropRate.InUnitInterval := by
  have hstep : ∀ later : World σ k, ∀ move ∈ moves,
      later.network.config.dropRate.InUnitInterval →
        (later.step move).network.config.dropRate.InUnitInterval := by
    intro later move _ hbefore
    rw [(later.settings_step move).1]
    exact move.inUnitInterval_reconfigure hbefore
  exact run_preserves hstep h

/-- A loss rate that is no number from zero to one is refused, and the world stays. -/
theorem step_setDropRate_of_refused (world : World σ k) {dropRate : Binary64}
    (h : ¬dropRate.InUnitInterval) :
    world.network.setDropRate dropRate = .error (.dropRate dropRate) ∧
      world.step (.setDropRate dropRate) = world := by
  rw [← Binary64.isProbability_iff] at h
  have hrefused : world.network.setDropRate dropRate = .error (.dropRate dropRate) := by
    rw [Network.setDropRate, NetworkConfig.checkDropRate, if_neg h]
    rfl
  refine ⟨hrefused, ?_⟩
  rw [step, hrefused]
  rfl

end World

/-- A network is set up only with a loss rate that is a number from zero to one. -/
theorem Network.inUnitInterval_of_new {σ : Type} {config : NetworkConfig} {generator : σ}
    {hasClock : Bool} {network : Network σ}
    (h : Network.new config generator hasClock = .ok network) :
    network.config.dropRate.InUnitInterval := by
  rw [← Binary64.isProbability_iff, Network.eq_of_new h]
  by_contra hnot
  rw [Network.new, NetworkConfig.check, NetworkConfig.checkDropRate, if_neg hnot] at h
  cases h

namespace World

variable {σ : Type} {k : Nat} [Random.Source σ]

/-- However a network was set otherwise, and whatever else was done, since it was set up: its
configuration is what it was set to last, and its loss rate is a number from zero to one. Any other
loss rate is refused, and nothing changes. Whatever is drawn, a decision about a send never asks for
something that is not to be had. If the decision is that the send is lost, the loss rate is greater than
zero, and if the loss rate is one, the send is lost. Otherwise its delay is at least the latency and at
most the sum of latency and jitter, or the greatest duration if this is less. -/
theorem rolls_are_safe {config : NetworkConfig} {generator : σ} {hasClock : Bool}
    {network : Network σ} (hnew : Network.new config generator hasClock = .ok network)
    (protocols : Vector (Protocol σ) k) (wall : Nat) (moves : List (Move k)) :
    let reached := (World.new network protocols wall).run moves
    let settings := reached.network.config
    settings = moves.foldl (fun config move => move.reconfigure config) config ∧
    settings.dropRate.InUnitInterval ∧
    (∀ dropRate : Binary64, ¬dropRate.InUnitInterval →
      reached.network.setDropRate dropRate = .error (.dropRate dropRate) ∧
        reached.step (.setDropRate dropRate) = reached) ∧
    ∀ state : σ,
      Network.roll? settings state = some (Network.roll settings state) ∧
      ((Network.roll settings state).1 = none → 0 < settings.dropRate.value) ∧
      (settings.dropRate.value = 1 → (Network.roll settings state).1 = none) ∧
      ∀ delay, (Network.roll settings state).1 = some delay →
        settings.latency.nanos ≤ delay.nanos ∧
          delay.nanos ≤
            min (settings.latency.nanos + settings.jitter.nanos) Duration.greatest.nanos := by
  intro reached settings
  have hstart : (World.new network protocols wall).network.config = config := by
    rw [Network.eq_of_new hnew]
    rfl
  have hsettings : settings = _ := config_run (World.new network protocols wall) moves
  have hbefore : (World.new network protocols wall).network.config.dropRate.InUnitInterval :=
    Network.inUnitInterval_of_new hnew
  have hunit : settings.dropRate.InUnitInterval := inUnitInterval_run hbefore moves
  rw [hstart] at hsettings
  refine ⟨hsettings, hunit, fun dropRate => reached.step_setDropRate_of_refused,
    fun state => ⟨Network.roll?_eq hunit state, fun hlost => ?_, fun hone => ?_,
      fun delay => Network.nanos_of_roll⟩⟩
  · exact (Binary64.isPositive_iff hunit.1).mp (Network.isPositive_of_roll hlost)
  · rw [Network.roll_of_one (Binary64.eq_one_of_value hone)]

/-- Loss rates that are refused, negative zero, which is set, and the greatest delays. -/
def extremes : List (Move 1) :=
  [.setDropRate .nan, .setDropRate (.infinity true), .setDropRate ⟨true, 0⟩,
    .send ⟨"a", "b", ⟨"m", "set", "a", [], 0⟩⟩, .setLatency .greatest, .setJitter .greatest]

/-- With a loss rate of negative zero nothing is lost, and a sum of the greatest delays is the greatest
delay. -/
theorem rolls_are_safe_extreme :
    ∃ network, Network.new NetworkConfig.default (⟨[]⟩ : Random.Script) true = .ok network ∧
      let reached := (World.new network #v[⟨1, none, ⟨[]⟩⟩] 0).run extremes
      let settings := reached.network.config
      settings.dropRate = ⟨true, 0⟩ ∧ settings.dropRate.value = 0 ∧
      ¬Binary64.nan.InUnitInterval ∧ reached.step (.setDropRate .nan) = reached ∧
      ∃ delay, (Network.roll settings (⟨[]⟩ : Random.Script)).1 = some delay ∧
        delay.nanos = Duration.greatest.nanos := by
  obtain ⟨network, hnew⟩ : ∃ network,
      Network.new NetworkConfig.default (⟨[]⟩ : Random.Script) true = .ok network := ⟨_, rfl⟩
  refine ⟨network, hnew, ?_⟩
  intro reached settings
  obtain ⟨hsettings, -, hrefused, hrolls⟩ := rolls_are_safe hnew #v[⟨1, none, ⟨[]⟩⟩] 0 extremes
  have hvalues : settings = ⟨.greatest, .greatest, ⟨true, 0⟩, none⟩ := hsettings.trans rfl
  have hrate : settings.dropRate.value = 0 := by
    rw [hvalues]
    decide +kernel
  have hnan : ¬Binary64.nan.InUnitInterval := by decide
  obtain ⟨-, hlost, -, hdelays⟩ := hrolls ⟨[]⟩
  refine ⟨by rw [hvalues], hrate, hnan, (hrefused .nan hnan).2, ?_⟩
  cases hroll : (Network.roll settings (⟨[]⟩ : Random.Script)).1 with
  | none =>
    have hpositive := hlost hroll
    rw [hrate] at hpositive
    exact absurd hpositive (lt_irrefl 0)
  | some delay =>
    have hleast : settings.latency.nanos ≤ delay.nanos := (hdelays delay hroll).1
    rw [hvalues] at hleast
    exact ⟨delay, rfl, Nat.le_antisymm delay.nanos_le hleast⟩

end World

end Epidemic
