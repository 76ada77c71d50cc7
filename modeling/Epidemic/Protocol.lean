import Epidemic.Ordered
import Epidemic.Policy
import Epidemic.Random.Shuffle

/-!
# Push protocols

The protocols are the policies that simulations and networks are run with. Peers are drawn at random,
as many as the fanout says, and what is received is pushed on; a protocol with an age bound does not
push on what is older.

The draw starts from the distinct candidates in ascending order, so it depends on the set of peers
and not on how they are listed.
-/

namespace Epidemic

/-- A protocol and the state of its random choices. -/
structure Protocol (σ : Type) where
  /-- How many peers a message is pushed to. -/
  fanout : Nat
  /-- The greatest age at which a message is pushed on; none for no bound. -/
  maxAge : Option Duration
  /-- The state from which peers are drawn. -/
  generator : σ

namespace Protocol

variable {σ : Type}

/-- The distinct peers in ascending order, without the excluded one: the others are sorted, and what
is repeated is left out. -/
def candidates (listed : List NodeId) (excluded : Option NodeId) : List NodeId :=
  Ordered.dedup (Ordered.sort (listed.filter fun id => excluded != some id))

/-- Draws the peers that a message is pushed to. -/
def select [Random.Chooser σ] (protocol : Protocol σ) (listed : List NodeId)
    (excluded : Option NodeId) : List NodeId × Protocol σ :=
  let (order, generator) := Random.shuffle (candidates listed excluded) protocol.generator
  (order.take protocol.fanout, { protocol with generator })

/-- Whether a received message is pushed on at a reading of the wall clock. -/
def forwards (protocol : Protocol σ) (message : Message) (now : Nat) : Bool :=
  match protocol.maxAge with
  | none => true
  | some bound => message.age now ≤ bound.millis

/-- Protocols are policies. Whether a message is pushed on is not drawn. -/
instance [Random.Chooser σ] : Policy (Protocol σ) where
  fanout := fanout
  select := select
  forwards protocol message now := (protocol.forwards message now, protocol)

end Protocol

end Epidemic
