import Epidemic.Proofs.Node.Life
import Epidemic.Proofs.Selection

/-!
# Age bounds around protocols

Two policies may answer alike although they are of different types. A node cannot tell them apart: what
it does with one of them it does with the other one. This is how an age bound that is put around a
protocol compares with the bound that a protocol has by itself: the one comes to the other, and where
there are both the tighter one holds.
-/

namespace Epidemic

/-- Whether a function leads from policies to policies that give the same answers. -/
structure Policy.Mirrors {π ρ : Type} [Policy π] [Policy ρ] (mirror : π → ρ) : Prop where
  /-- The same peers are drawn. -/
  select : ∀ (policy : π) (listed : List NodeId) (excluded : Option NodeId),
    Policy.select (mirror policy) listed excluded =
      ((Policy.select policy listed excluded).1, mirror (Policy.select policy listed excluded).2)
  /-- The same decisions are taken. -/
  forwards : ∀ (policy : π) (message : Message) (now : Nat),
    Policy.forwards (mirror policy) message now =
      ((Policy.forwards policy message now).1, mirror (Policy.forwards policy message now).2)

/-- What an operation comes to, with another protocol. -/
def Turn.mapProtocol {π ρ α : Type} (mirror : π → ρ) (turn : Turn π α) : Turn ρ α where
  result := turn.result
  node := turn.node
  protocol := mirror turn.protocol
  sends := turn.sends

/-- The same node with another protocol. -/
def Life.mapProtocol {π ρ : Type} (mirror : π → ρ) (life : Life π) : Life ρ where
  node := life.node
  protocol := mirror life.protocol
  linked := life.linked

section Mirrors

variable {π ρ : Type} [Policy π] [Policy ρ] {mirror : π → ρ}

namespace Node

/-- A message is pushed to the same peers. -/
theorem push_mirror (h : Policy.Mirrors mirror) (node : Node) (protocol : π) (linked : Bool)
    (message : Message) (excluded : Option NodeId) :
    node.push (mirror protocol) linked message excluded =
      (node.push protocol linked message excluded).mapProtocol mirror := by
  rw [push, h.select]
  rfl

/-- So are several messages. -/
theorem pushAll_mirror (h : Policy.Mirrors mirror) (node : Node) (protocol : π) (linked : Bool)
    (messages : List Message) :
    node.pushAll (mirror protocol) linked messages =
      (node.pushAll protocol linked messages).mapProtocol mirror := by
  induction messages generalizing node protocol with
  | nil => rfl
  | cons message rest ih =>
    rw [pushAll, push_mirror h]
    dsimp only [Turn.mapProtocol]
    rw [ih]
    rfl

/-- The same broadcast is made. -/
theorem broadcast_mirror (h : Policy.Mirrors mirror) (node : Node) (protocol : π) (linked : Bool)
    (now : Nat) (id : MessageId) (kind : String) (payload : Payload) :
    node.broadcast (mirror protocol) linked now id kind payload =
      (node.broadcast protocol linked now id kind payload).mapProtocol mirror := by
  cases hdown : node.isDown with
  | true =>
    rw [broadcast_of_isDown hdown, broadcast_of_isDown hdown]
    rfl
  | false =>
    rw [broadcast_eq hdown, broadcast_eq hdown, push_mirror h]
    split
    · rfl
    · split <;> rfl

/-- The same is made of a message that is received. -/
theorem receive_mirror (h : Policy.Mirrors mirror) (node : Node) (protocol : π) (linked : Bool)
    (now : Nat) (message : Message) (sender : NodeId) :
    node.receive (mirror protocol) linked now message sender =
      (node.receive protocol linked now message sender).mapProtocol mirror := by
  cases hdown : node.isDown with
  | true =>
    rw [receive_of_isDown hdown, receive_of_isDown hdown]
    rfl
  | false =>
    cases hseen : node.hasSeen message.id with
    | true =>
      rw [receive_of_hasSeen hdown hseen, receive_of_hasSeen hdown hseen]
      rfl
    | false =>
      rw [receive_eq hdown hseen, receive_eq hdown hseen, h.forwards]
      dsimp only
      rw [push_mirror h]
      split <;> rfl

/-- The same rumor round is held. -/
theorem gossipRound_mirror (h : Policy.Mirrors mirror) (node : Node) (protocol : π)
    (linked : Bool) :
    node.gossipRound (mirror protocol) linked =
      (node.gossipRound protocol linked).mapProtocol mirror := by
  cases hdown : node.isDown with
  | true =>
    rw [gossipRound_of_isDown hdown, gossipRound_of_isDown hdown]
    rfl
  | false =>
    rw [gossipRound, gossipRound, if_neg (ne_true_of_eq_false hdown),
      if_neg (ne_true_of_eq_false hdown)]
    dsimp only
    rw [pushAll_mirror h]
    rfl

end Node

namespace Life

/-- Whatever is done to a node, the same comes of it if its protocol gives the same answers. -/
theorem step_mirror (h : Policy.Mirrors mirror) (life : Life π) (now : Nat) (deed : Deed) :
    (life.mapProtocol mirror).step now deed =
      ((life.step now deed).1.mapProtocol mirror, (life.step now deed).2) := by
  cases deed with
  | broadcast id kind payload =>
    rw [step, mapProtocol, Node.broadcast_mirror h]
    rfl
  | receive message sender =>
    rw [step, mapProtocol, Node.receive_mirror h]
    rfl
  | gossipRound =>
    rw [step, mapProtocol, Node.gossipRound_mirror h]
    rfl
  | addPeer | shutdown | unlink => rfl

/-- So it goes on. -/
theorem run_mirror (h : Policy.Mirrors mirror) (life : Life π) (entries : List (Nat × Deed)) :
    (life.mapProtocol mirror).run entries = (life.run entries).mapProtocol mirror := by
  induction entries generalizing life with
  | nil => rfl
  | cons entry rest ih =>
    have hrest := ih (life.step entry.1 entry.2).1
    rw [run, List.foldl_cons, step_mirror h]
    exact hrest

end Life

end Mirrors

/-! ## Bounds -/

/-- The protocol that comes of another age bound: of two bounds the tighter one holds. -/
def Protocol.bounded {σ : Type} (protocol : Protocol σ) (bound : Duration) : Protocol σ :=
  match protocol.maxAge with
  | none => { protocol with maxAge := some bound }
  | some other =>
    { protocol with maxAge := some (if other.nanos < bound.nanos then other else bound) }

/-- A message is pushed on if both bounds allow for it. -/
theorem Protocol.forwards_bounded {σ : Type} (protocol : Protocol σ) (bound : Duration)
    (message : Message) (now : Nat) :
    (protocol.bounded bound).forwards message now =
      (decide (message.age now ≤ bound.millis) && protocol.forwards message now) := by
  unfold Protocol.bounded
  cases hmax : protocol.maxAge with
  | none => simp only [Protocol.forwards, hmax, Bool.and_true]
  | some other =>
    have hmin : message.age now ≤ (if other.nanos < bound.nanos then other else bound).millis ↔
        message.age now ≤ bound.millis ∧ message.age now ≤ other.millis := by
      unfold Duration.millis
      split <;> omega
    simp only [Protocol.forwards, hmax, hmin, Bool.decide_and]

namespace AgeBounded

variable {σ : Type}

/-- The protocol that an age bound around a protocol comes to. -/
def flatten (policy : AgeBounded (Protocol σ)) : Protocol σ := policy.inner.bounded policy.maxAge

variable [Random.Chooser σ]

/-- An age bound around a protocol and the protocol that it comes to give the same answers. -/
theorem mirrors_flatten : Policy.Mirrors (flatten : AgeBounded (Protocol σ) → Protocol σ) where
  select policy listed excluded := by
    obtain ⟨inner, bound⟩ := policy
    simp only [flatten, Protocol.bounded]
    split <;> rename_i hmax
    · simp only [Policy.select, select, Protocol.select, hmax]
    · simp only [Policy.select, select, Protocol.select, hmax]
  forwards policy message now := by
    obtain ⟨inner, bound⟩ := policy
    rw [Protocol.policy_forwards, flatten, Protocol.forwards_bounded]
    simp only [Policy.forwards, forwards]
    split
    · rename_i hage
      simp only [hage, decide_true, Bool.true_and]
      rfl
    · rename_i hage
      simp only [hage, decide_false, Bool.false_and]
      rfl

end AgeBounded

/-- Whatever is done to a node whose protocol has been given an age bound, it becomes what it becomes
with the protocol that has this bound by itself, and it makes the same sends. -/
theorem Life.run_ageBounded {σ : Type} [Random.Chooser σ] (life : Life (AgeBounded (Protocol σ)))
    (entries : List (Nat × Deed)) (now : Nat) (deed : Deed) :
    let flattened := life.mapProtocol AgeBounded.flatten
    (flattened.run entries).node = (life.run entries).node ∧
      ((flattened.run entries).step now deed).2 = ((life.run entries).step now deed).2 := by
  intro flattened
  have hrun : flattened.run entries = (life.run entries).mapProtocol AgeBounded.flatten :=
    run_mirror AgeBounded.mirrors_flatten life entries
  rw [hrun, step_mirror AgeBounded.mirrors_flatten]
  exact ⟨rfl, rfl⟩

end Epidemic
