import Epidemic.Proofs.World.Knowledge
import Epidemic.Proofs.World.Wave

/-!
# The holders of a message

The node that makes a broadcast has seen it, and nodes forget nothing. So every message that was made
has a holder, and the number of its holders never becomes less.
-/

namespace Epidemic

namespace Life

variable {π : Type} [Policy π]

/-- A node that makes a broadcast has seen it. -/
theorem mem_seen_of_originated {life : Life π} {now : Nat} {deed : Deed} {message : Message}
    (h : life.originated? now deed = some message) :
    message.id ∈ (life.step now deed).1.node.seen := by
  cases deed with
  | broadcast id kind payload =>
    cases hdown : life.node.isDown with
    | true =>
      have hnone : life.originated? now (.broadcast id kind payload) = none := if_pos hdown
      rw [hnone] at h
      cases h
    | false =>
      have hsome : life.originated? now (.broadcast id kind payload) =
          some (life.node.compose now id kind payload) := if_neg (ne_true_of_eq_false hdown)
      obtain ⟨⟨forwards, hnode⟩, -⟩ :=
        Node.broadcast_of_isUp hdown life.protocol life.linked now id kind payload
      rw [hsome] at h
      rw [step, follow, hnode, ← Option.some.inj h]
      exact List.mem_cons_self
  | addPeer | receive | gossipRound | shutdown | unlink => cases h

end Life

namespace World

variable {σ : Type} {k : Nat} [Random.Source σ] {world after : World σ k}
  {made more : List Message} {batches : List Batch}

/-- Whether every message of a list was seen by some node. -/
def AllSeen (made : List Message) (world : World σ k) : Prop :=
  ∀ message ∈ made, ∃ (place : Nat) (member : Member k), world.members[place]? = some member ∧
    message.id ∈ member.node.seen

/-- A change leaves every message with a holder, and gives one to what is made by it. -/
theorem AllSeen.change (h : world.AllSeen made) (hchange : world.Change more batches after) :
    after.AllSeen (made ++ more) := by
  intro message hmem
  rcases List.mem_append.mp hmem with hold | hnew
  · obtain ⟨place, member, hplace, hseen⟩ := h message hold
    obtain ⟨later, hlater, hkept⟩ := hchange.exists_seen hplace hseen
    exact ⟨place, later, hlater, hkept⟩
  · cases hchange with
    | still | unheard => cases hnew
    | @deed _ index member deed hat _ hmembers _ =>
      have hseen := Life.mem_seen_of_originated (Option.mem_toList.mp hnew)
      obtain ⟨hlt, -⟩ := List.getElem?_eq_some_iff.mp hat
      refine ⟨index, { member with node := ((world.lifeOf member).step world.wall deed).1.node }, ?_,
        hseen⟩
      rw [hmembers, List.getElem?_set_self hlt]

/-- So does a passage. -/
theorem AllSeen.passage (h : world.AllSeen made) (hpassage : world.Passage more batches after) :
    after.AllSeen (made ++ more) := by
  induction hpassage with
  | refl =>
    rw [List.append_nil]
    exact h
  | step _ hchange ih =>
    rw [← List.append_assoc]
    exact ih.change hchange

/-- Elements that satisfy a condition become no fewer if each of them is replaced by one that
satisfies it. -/
theorem countP_le_of_getElem? {α : Type} {holds : α → Bool} {before later : List α}
    (h : ∀ (place : Nat) (a : α), before[place]? = some a → holds a = true →
      ∃ b, later[place]? = some b ∧ holds b = true) :
    before.countP holds ≤ later.countP holds := by
  induction before generalizing later with
  | nil => exact Nat.zero_le _
  | cons a rest ih =>
    cases later with
    | nil =>
      have hnone : (a :: rest).countP holds = 0 := by
        refine List.countP_eq_zero.mpr fun x hx hholds => ?_
        obtain ⟨place, hplace⟩ := List.mem_iff_getElem?.mp hx
        obtain ⟨b, hb, -⟩ := h place x hplace hholds
        cases hb
      rw [hnone]
      exact Nat.zero_le _
    | cons b others =>
      have hrest := ih fun place => h (place + 1)
      rw [List.countP_cons, List.countP_cons]
      by_cases hfirst : holds a = true
      · obtain ⟨c, hc, hholds⟩ := h 0 a rfl hfirst
        cases hc
        rw [if_pos hfirst, if_pos hholds]
        omega
      · rw [if_neg hfirst]
        omega

/-- Whatever changes in a world, a message keeps its holders. -/
theorem Passage.countP_hasSeen_le (h : world.Passage more batches after) (id : MessageId) :
    world.nodes.countP (·.hasSeen id) ≤ after.nodes.countP (·.hasSeen id) := by
  refine countP_le_of_getElem? fun place node hat hseen => ?_
  rw [nodes, List.getElem?_map, Option.map_eq_some_iff] at hat
  obtain ⟨member, hmember, rfl⟩ := hat
  obtain ⟨later, hlater, hkept⟩ := h.exists_seen hmember (List.contains_iff_mem.mp hseen)
  refine ⟨later.node, ?_, List.contains_iff_mem.mpr hkept⟩
  rw [nodes, List.getElem?_map, hlater, Option.map_some]

end World

end Epidemic
