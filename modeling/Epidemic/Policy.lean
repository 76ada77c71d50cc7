import Epidemic.Duration
import Epidemic.Message

/-!
# Policies

A policy answers the two questions that a node has about a message: to whom to push it, and whether
to push it on at all. Both answers may be drawn at random, so that each of them leaves a policy from
which the next ones are drawn; the policy is shared by the nodes, and is told nothing of them but the
names of the peers.

Any policy can be given an age bound: then it does not push on what is older.
-/

namespace Epidemic

/-- The policies of a type. -/
class Policy (π : Type) where
  /-- How many peers a message is pushed to at most. -/
  fanout : π → Nat
  /-- Draws the peers that a message is pushed to out of those that are listed, one of whom may be
  excluded. -/
  select : π → List NodeId → Option NodeId → List NodeId × π
  /-- Tells whether a received message is pushed on at a reading of the wall clock. -/
  forwards : π → Message → Nat → Bool × π

/-- A policy with an age bound. -/
structure AgeBounded (π : Type) where
  /-- The policy without the bound. -/
  inner : π
  /-- The greatest age at which a message is pushed on. -/
  maxAge : Duration

namespace AgeBounded

variable {π : Type} [Policy π]

/-- Peers are drawn as they are without the bound. -/
def select (policy : AgeBounded π) (listed : List NodeId) (excluded : Option NodeId) :
    List NodeId × AgeBounded π :=
  let (targets, inner) := Policy.select policy.inner listed excluded
  (targets, { policy with inner })

/-- A message that is too old is not pushed on, and the policy without the bound is not asked. -/
def forwards (policy : AgeBounded π) (message : Message) (now : Nat) : Bool × AgeBounded π :=
  if message.age now ≤ policy.maxAge.millis then
    let (isForwarded, inner) := Policy.forwards policy.inner message now
    (isForwarded, { policy with inner })
  else (false, policy)

instance : Policy (AgeBounded π) where
  fanout policy := Policy.fanout policy.inner
  select := select
  forwards := forwards

end AgeBounded

end Epidemic
