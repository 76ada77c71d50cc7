import Epidemic.Simulation.Basic

/-!
# Seeds that stay as they are

The seed of losses and delays is the given one times an odd constant, so that they are drawn from
another stream than the topology. The constant is one more than four times an odd number: the product
is the given seed again exactly if this is a multiple of `2 ^ 62`. There are four of these, zero among
them, and with each of them losses are drawn from the stream of the topology. The seed of the selection
of peers differs from both always, since it is odd where they are even.
-/

namespace Epidemic

namespace SimulationConfig.Seeds

/-- The seeds that the factor leaves as they are. -/
def unchanged : List UInt64 := [0, 0x4000000000000000, 0x8000000000000000, 0xC000000000000000]

/-- They are the multiples of a quarter of the range. -/
theorem mem_unchanged_iff {seed : UInt64} :
    seed ∈ unchanged ↔ 0x4000000000000000 ∣ seed.toNat := by
  have hlt : seed.toNat < 0x10000000000000000 := seed.toNat_lt
  simp only [unchanged, List.mem_cons, List.not_mem_nil, or_false, ← UInt64.toNat_inj,
    UInt64.reduceToNat]
  omega

/-- A number that is left as it is by a factor one more than four times an odd number is a multiple of a
quarter of the range: the odd number has no part in making its product zero. -/
theorem quarter_dvd_of_mul_mod {seed odd : Nat} (hodd : Nat.Coprime 0x4000000000000000 odd)
    (h : seed * (4 * odd + 1) % 0x10000000000000000 = seed) : 0x4000000000000000 ∣ seed := by
  have hzero : 0x4000000000000000 ∣ seed * odd := by
    rw [Nat.mul_add, Nat.mul_one, Nat.mul_left_comm] at h
    omega
  exact hodd.dvd_of_dvd_mul_right hzero

/-- The seed of losses is the given one exactly if the factor leaves it as it is. -/
theorem network_eq_topology_iff (seed : UInt64) :
    (ofSeed seed).network = (ofSeed seed).topology ↔ seed ∈ unchanged := by
  have hlt : seed.toNat < 0x10000000000000000 := seed.toNat_lt
  -- Of the factor only matters that it is one more than four times an odd number.
  have hfactor : 0x9E3779B97F4A7C15 = 4 * 0x278DDE6E5FD29F05 + 1 := rfl
  have hodd : Nat.Coprime 0x4000000000000000 0x278DDE6E5FD29F05 := by decide
  rw [mem_unchanged_iff, ← UInt64.toNat_inj, ofSeed, UInt64.toNat_mul]
  simp only [UInt64.reduceToNat, hfactor]
  constructor
  · exact quarter_dvd_of_mul_mod hodd
  · rintro ⟨quarters, hquarters⟩
    rw [hquarters] at hlt ⊢
    omega

/-- The seeds of the topology and of losses are both even or both odd. -/
theorem network_parity (seed : UInt64) :
    (ofSeed seed).network.toNat % 2 = (ofSeed seed).topology.toNat % 2 := by
  rw [ofSeed, UInt64.toNat_mul]
  simp only [UInt64.reduceToNat]
  omega

/-- The seed of the selection is odd where that of the topology is even, and even where it is odd. -/
theorem selection_parity (seed : UInt64) :
    (ofSeed seed).selection.toNat % 2 ≠ (ofSeed seed).topology.toNat % 2 := by
  rw [ofSeed, UInt64.toNat_add]
  simp only [UInt64.reduceToNat]
  omega

/-- No other stream has the seed of the selection. -/
theorem selection_ne (seed : UInt64) :
    (ofSeed seed).selection ≠ (ofSeed seed).topology ∧
      (ofSeed seed).selection ≠ (ofSeed seed).network := by
  have hparity := selection_parity seed
  refine ⟨fun heq => hparity ?_, fun heq => hparity ?_⟩
  · rw [heq]
  · rw [heq, network_parity]

end SimulationConfig.Seeds

/-- Of the three seeds that belong to a given one, that of the selection differs from the others always.
All three differ exactly if the factor does not leave the given seed as it is; otherwise the network has
the seed of the simulation, and losses and delays are drawn from where the topology is drawn from. -/
theorem Simulation.seeds_differ_iff (config : SimulationConfig) (seed otherwise : UInt64) :
    let seeds := SimulationConfig.Seeds.ofSeed seed
    let seeded := { config with seed := some seed }
    let generators := Simulation.Generators.ofSeed seeded otherwise
    ([seeds.topology, seeds.selection, seeds.network].Nodup ↔
        seed ∉ SimulationConfig.Seeds.unchanged) ∧
      seeds.selection ≠ seeds.topology ∧ seeds.selection ≠ seeds.network ∧
      (seeded.network.seed = seeded.seed ↔ seed ∈ SimulationConfig.Seeds.unchanged) ∧
      (seeded.network.seed = seeded.seed → generators.network = generators.topology) := by
  intro seeds seeded generators
  obtain ⟨hselection, hloss⟩ := SimulationConfig.Seeds.selection_ne seed
  have hsame := SimulationConfig.Seeds.network_eq_topology_iff seed
  have hseed : seeded.network.seed = seeded.seed ↔ seeds.network = seeds.topology :=
    Option.some_inj
  refine ⟨?_, hselection, hloss, hseed.trans hsame, fun hkept => ?_⟩
  · rw [← hsame]
    simp only [List.nodup_cons, List.mem_cons, List.not_mem_nil, or_false, not_or, List.nodup_nil,
      not_false_eq_true, and_true]
    exact ⟨fun hall heq => hall.1.2 heq.symm,
      fun hother => ⟨⟨Ne.symm hselection, Ne.symm hother⟩, hloss⟩⟩
  · exact congrArg Random.Cipher.ofSeed (hseed.mp hkept)

end Epidemic
