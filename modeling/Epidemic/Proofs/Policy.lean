import Epidemic.Policy

/-!
# Policies that keep their word

A policy is asked for peers and for decisions, one after the other, and each answer leaves a policy that
comes of it. A lawful policy draws no more peers than its fanout, none of them twice, none that is not
listed and never the excluded one; and its fanout stays what it is. An age bound takes nothing away from
this.
-/

namespace Epidemic

/-- The policies that come of a policy by answers that it gives. -/
inductive Policy.LeadsTo {π : Type} [Policy π] (policy : π) : π → Prop where
  /-- It has not been asked anything. -/
  | refl : LeadsTo policy policy
  /-- It has been asked for peers at last. -/
  | select {middle : π} (h : LeadsTo policy middle) (listed : List NodeId)
    (excluded : Option NodeId) : LeadsTo policy (Policy.select middle listed excluded).2
  /-- It has been asked for a decision at last. -/
  | forwards {middle : π} (h : LeadsTo policy middle) (message : Message) (now : Nat) :
    LeadsTo policy (Policy.forwards middle message now).2

/-- The policies that draw peers as they should. -/
class LawfulPolicy (π : Type) [Policy π] : Prop where
  /-- The peers drawn are listed, and none of them is excluded. -/
  mem_select : ∀ (policy : π) (listed : List NodeId) (excluded : Option NodeId),
    ∀ peer ∈ (Policy.select policy listed excluded).1, peer ∈ listed ∧ excluded ≠ some peer
  /-- No peer is drawn twice. -/
  nodup_select : ∀ (policy : π) (listed : List NodeId) (excluded : Option NodeId),
    (Policy.select policy listed excluded).1.Nodup
  /-- No more peers are drawn than the fanout allows for. -/
  length_select_le : ∀ (policy : π) (listed : List NodeId) (excluded : Option NodeId),
    (Policy.select policy listed excluded).1.length ≤ Policy.fanout policy
  /-- Drawing peers does not change the fanout. -/
  fanout_select : ∀ (policy : π) (listed : List NodeId) (excluded : Option NodeId),
    Policy.fanout (Policy.select policy listed excluded).2 = Policy.fanout policy
  /-- Neither does a decision. -/
  fanout_forwards : ∀ (policy : π) (message : Message) (now : Nat),
    Policy.fanout (Policy.forwards policy message now).2 = Policy.fanout policy

namespace Policy

variable {π : Type} [Policy π] {first second third : π}

/-- What comes of a policy that comes of another one comes of this. -/
theorem LeadsTo.trans (h : LeadsTo first second) (h' : LeadsTo second third) :
    LeadsTo first third := by
  induction h' with
  | refl => exact h
  | select _ listed excluded ih => exact ih.select listed excluded
  | forwards _ message now ih => exact ih.forwards message now

/-- The fanout stays what it is, whatever a lawful policy is asked. -/
theorem LeadsTo.fanout_eq [LawfulPolicy π] (h : LeadsTo first second) :
    fanout second = fanout first := by
  induction h with
  | refl => rfl
  | select _ listed excluded ih => exact (LawfulPolicy.fanout_select _ listed excluded).trans ih
  | forwards _ message now ih => exact (LawfulPolicy.fanout_forwards _ message now).trans ih

/-- Without any fanout a lawful policy draws no peers. -/
theorem fanout_pos_of_mem_select [LawfulPolicy π] {policy : π} {listed : List NodeId}
    {excluded : Option NodeId} {peer : NodeId} (h : peer ∈ (select policy listed excluded).1) :
    0 < fanout policy :=
  Nat.lt_of_lt_of_le (List.length_pos_of_mem h)
    (LawfulPolicy.length_select_le policy listed excluded)

end Policy

/-- With an age bound a lawful policy is still lawful. -/
instance AgeBounded.lawful {π : Type} [Policy π] [LawfulPolicy π] : LawfulPolicy (AgeBounded π) where
  mem_select policy := LawfulPolicy.mem_select policy.inner
  nodup_select policy := LawfulPolicy.nodup_select policy.inner
  length_select_le policy := LawfulPolicy.length_select_le policy.inner
  fanout_select policy := LawfulPolicy.fanout_select policy.inner
  fanout_forwards policy message now := by
    simp only [Policy.forwards, AgeBounded.forwards]
    split
    · exact LawfulPolicy.fanout_forwards policy.inner message now
    · rfl

end Epidemic
