import Epidemic.Proofs.Ordered
import Epidemic.Proofs.Policy
import Epidemic.Protocol
import Mathlib.Data.Finset.Card

/-!
# Which peers are drawn

Whatever is drawn at random, a message is pushed to listed peers only and never to the excluded one.
If the fanout allows for all of them, none is left out; else as many are drawn as it allows for, and
all of them are distinct. How the peers are listed makes no difference: it is the set of the candidates
that is drawn from, and that determines how often something is drawn.
-/

namespace Epidemic.Protocol

variable {σ : Type}

/-- Whether two protocols follow the same rules, whatever they draw. -/
def SameRules (protocol other : Protocol σ) : Prop :=
  other.fanout = protocol.fanout ∧ other.maxAge = protocol.maxAge

/-- What follows the rules of a protocol that follows those of another one follows these too. -/
theorem SameRules.trans {first second third : Protocol σ} (h : first.SameRules second)
    (h' : second.SameRules third) : first.SameRules third :=
  ⟨h'.1.trans h.1, h'.2.trans h.2⟩

/-- The candidates are the set of the listed peers but the excluded one. -/
theorem candidates_eq_ofList (listed : List NodeId) (excluded : Option NodeId) :
    candidates listed excluded = Ordered.ofList (listed.filter fun id => excluded != some id) :=
  Ordered.dedup_sort (fun _ _ _ => String.lt_trans) _

/-- Candidates are the listed peers but the excluded one. -/
theorem mem_candidates {listed : List NodeId} {excluded : Option NodeId} {peer : NodeId} :
    peer ∈ candidates listed excluded ↔ peer ∈ listed ∧ excluded ≠ some peer := by
  rw [candidates_eq_ofList, Ordered.mem_ofList, List.mem_filter, bne_iff_ne]

/-- There are no more candidates than listed peers. -/
theorem length_candidates_le (listed : List NodeId) (excluded : Option NodeId) :
    (candidates listed excluded).length ≤ listed.length := by
  rw [candidates_eq_ofList]
  exact Nat.le_trans (Ordered.length_ofList_le _) (List.length_filter_le _ _)

/-- The candidates are in ascending order. -/
theorem ascending_candidates (listed : List NodeId) (excluded : Option NodeId) :
    (candidates listed excluded).Pairwise (· < ·) := by
  rw [candidates_eq_ofList]
  exact Ordered.pairwise_ofList (fun _ _ _ => String.lt_trans) _

/-- However often a peer is listed, it is a candidate once. -/
theorem nodup_candidates (listed : List NodeId) (excluded : Option NodeId) :
    (candidates listed excluded).Nodup :=
  (ascending_candidates listed excluded).nodup

/-- There are as many candidates as distinct listed peers but the excluded one. -/
theorem length_candidates (listed : List NodeId) (excluded : Option NodeId) :
    (candidates listed excluded).length =
      (listed.toFinset.filter fun peer => excluded ≠ some peer).card := by
  rw [← List.toFinset_card_of_nodup (nodup_candidates listed excluded)]
  congr 1
  ext peer
  rw [List.mem_toFinset, mem_candidates, Finset.mem_filter, List.mem_toFinset]

/-- Peers in ascending order are the candidates, if they are those that are listed and not
excluded. -/
theorem eq_candidates {listed ascending : List NodeId} {excluded : Option NodeId}
    (h : ascending.Pairwise (· < ·))
    (hmem : ∀ peer, peer ∈ ascending ↔ peer ∈ listed ∧ excluded ≠ some peer) :
    ascending = candidates listed excluded := by
  rw [candidates_eq_ofList]
  refine Ordered.eq_ofList (fun _ _ _ => String.lt_trans) h fun peer => ?_
  rw [hmem, List.mem_filter, bne_iff_ne]

/-- If no peer is listed twice, the candidates are the listed peers but the excluded one, in another
order. -/
theorem perm_candidates {listed : List NodeId} (h : listed.Nodup) (excluded : Option NodeId) :
    (candidates listed excluded).Perm (listed.filter fun id => excluded != some id) := by
  rw [candidates_eq_ofList]
  exact Ordered.perm_ofList (h.filter _)

variable [Random.Chooser σ]

/-- The peers drawn are the first ones of the shuffled candidates. -/
theorem select_eq_take (protocol : Protocol σ) (listed : List NodeId) (excluded : Option NodeId) :
    (protocol.select listed excluded).1 =
      (Random.shuffle (candidates listed excluded) protocol.generator).1.take protocol.fanout :=
  rfl

/-- From no peers none is drawn, and nothing is drawn for it. -/
theorem select_nil (protocol : Protocol σ) (excluded : Option NodeId) :
    protocol.select [] excluded = ([], protocol) := by
  have hnone : candidates [] excluded = [] := rfl
  have hshuffle : Random.shuffle ([] : List NodeId) protocol.generator = ([], protocol.generator) :=
    rfl
  simp only [select, hnone, hshuffle, List.take_nil]

/-- Only candidates are drawn. -/
theorem mem_of_mem_select {protocol : Protocol σ} {listed : List NodeId} {excluded : Option NodeId}
    {peer : NodeId} (h : peer ∈ (protocol.select listed excluded).1) :
    peer ∈ listed ∧ excluded ≠ some peer := by
  rw [select_eq_take] at h
  have hmem := List.mem_of_mem_take h
  rw [(Random.perm_shuffle _ _).mem_iff] at hmem
  exact mem_candidates.mp hmem

/-- No peer is drawn twice. -/
theorem nodup_select (protocol : Protocol σ) (listed : List NodeId) (excluded : Option NodeId) :
    (protocol.select listed excluded).1.Nodup := by
  have hshuffled := (Random.perm_shuffle (candidates listed excluded) protocol.generator).nodup_iff.mpr
    (nodup_candidates listed excluded)
  rw [select_eq_take]
  exact hshuffled.sublist (List.take_sublist _ _)

/-- As many peers are drawn as the fanout allows for and as there are candidates. -/
theorem length_select (protocol : Protocol σ) (listed : List NodeId) (excluded : Option NodeId) :
    (protocol.select listed excluded).1.length =
      min protocol.fanout (candidates listed excluded).length := by
  have hshuffled := (Random.perm_shuffle (candidates listed excluded) protocol.generator).length_eq
  rw [select_eq_take, List.length_take, hshuffled]

/-- Whatever is picked at random and whether or not the age of messages is bounded: no peer is drawn
twice, only listed peers are drawn and never the excluded one, and as many are drawn as the fanout
allows for and as there are distinct listed peers but the excluded one. -/
theorem select_draws_distinct (protocol : Protocol σ) (listed : List NodeId)
    (excluded : Option NodeId) :
    (protocol.select listed excluded).1.Nodup ∧
      (∀ peer ∈ (protocol.select listed excluded).1, peer ∈ listed ∧ excluded ≠ some peer) ∧
      (protocol.select listed excluded).1.length =
        min protocol.fanout (listed.toFinset.filter fun peer => excluded ≠ some peer).card := by
  refine ⟨nodup_select protocol listed excluded, fun peer => mem_of_mem_select, ?_⟩
  rw [length_select, length_candidates]

/-- As a policy a protocol decides as it does by itself, and stays what it is. -/
theorem policy_forwards (protocol : Protocol σ) (message : Message) (now : Nat) :
    Policy.forwards protocol message now = (protocol.forwards message now, protocol) := rfl

/-- What comes of a protocol follows its rules. -/
theorem sameRules_of_leadsTo {protocol other : Protocol σ} (h : Policy.LeadsTo protocol other) :
    protocol.SameRules other := by
  induction h with
  | refl => exact ⟨rfl, rfl⟩
  | select _ _ _ ih => exact ih
  | forwards _ _ _ ih => exact ih

/-- Protocols draw peers as policies should. -/
instance lawful : LawfulPolicy (Protocol σ) where
  mem_select _ _ _ _ := mem_of_mem_select
  nodup_select := nodup_select
  length_select_le protocol listed excluded := by
    show (protocol.select listed excluded).1.length ≤ protocol.fanout
    rw [length_select]
    exact Nat.min_le_left _ _
  fanout_select _ _ _ := rfl
  fanout_forwards _ _ _ := rfl

/-- If there may be as many pushes as peers are listed, all candidates are drawn. -/
theorem mem_select_iff {protocol : Protocol σ} {listed : List NodeId} {excluded : Option NodeId}
    (h : listed.length ≤ protocol.fanout) {peer : NodeId} :
    peer ∈ (protocol.select listed excluded).1 ↔ peer ∈ listed ∧ excluded ≠ some peer := by
  have hperm := Random.perm_shuffle (candidates listed excluded) protocol.generator
  have hlength := hperm.length_eq
  have hcandidates := length_candidates_le listed excluded
  rw [select_eq_take, List.take_of_length_le (by omega), hperm.mem_iff, mem_candidates]

/-- If there is a candidate and any fanout at all, some peer is drawn. -/
theorem select_ne_nil {protocol : Protocol σ} {listed : List NodeId} {excluded : Option NodeId}
    {peer : NodeId} (hfanout : 0 < protocol.fanout) (hlisted : peer ∈ listed)
    (hexcluded : excluded ≠ some peer) : (protocol.select listed excluded).1 ≠ [] := by
  have hperm := Random.perm_shuffle (candidates listed excluded) protocol.generator
  have hmem := hperm.mem_iff.mpr (mem_candidates.mpr ⟨hlisted, hexcluded⟩)
  have hpositive := List.length_pos_of_mem hmem
  rw [select_eq_take]
  intro hnil
  rcases List.take_eq_nil_iff.mp hnil with hzero | hempty
  · omega
  · rw [hempty] at hmem
    cases hmem

end Epidemic.Protocol
