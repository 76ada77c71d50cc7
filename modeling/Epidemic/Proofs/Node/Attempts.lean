import Epidemic.Proofs.Node.Budget
import Epidemic.Proofs.Selection

/-!
# Attempts to push a message

Whenever a node pushes a message, peers are drawn for it first; what is sent then goes to these peers,
if the network can be reached. So everything a node sends, and all that it draws, is said by the list
of the messages that it has to push, with the peer that is left out for each of them.
-/

namespace Epidemic

/-- A message that is to be pushed. -/
structure Push where
  /-- The message. -/
  message : Message
  /-- The node to which it is not pushed, if there is one. -/
  excluded : Option NodeId

/-- A message with the peers that were drawn for it. -/
structure Attempt where
  /-- The message. -/
  message : Message
  /-- The peers. -/
  targets : List NodeId

/-- The peers to which a message may be pushed. -/
def Push.audience (push : Push) (peers : List NodeId) : List NodeId :=
  match push.excluded with
  | none => peers
  | some sender => peers.filter fun peer => peer != sender

/-- What a node of the given name sends in an attempt. -/
def Attempt.sends (attempt : Attempt) (sender : NodeId) (linked : Bool) : Batch :=
  if linked then attempt.targets.map fun target => ⟨sender, target, attempt.message⟩ else []

/-- The peers to which a message may be pushed are those but the excluded one. -/
theorem Push.filter_eq_audience (push : Push) (peers : List NodeId) :
    (peers.filter fun peer => push.excluded != some peer) = push.audience peers := by
  obtain ⟨message, excluded⟩ := push
  cases excluded with
  | none => exact List.filter_eq_self.mpr fun peer _ => rfl
  | some sender =>
    refine List.filter_congr fun peer _ => ?_
    show (some sender != some peer) = (peer != sender)
    rw [bne_comm]
    rfl

/-- Without a network nothing is sent. -/
theorem Attempt.sends_of_unlinked (attempt : Attempt) (sender : NodeId) :
    attempt.sends sender false = [] := rfl

/-- Something is sent if the network can be reached and there is somebody to send it to. -/
theorem Attempt.isEmpty_sends (attempt : Attempt) (sender : NodeId) :
    (attempt.sends sender true).isEmpty = attempt.targets.isEmpty := by
  rw [sends, if_pos rfl, List.isEmpty_map]

/-- The batches of several attempts hold their sends. -/
theorem Attempt.flatten_batches (attempts : List Attempt) (sender : NodeId) (linked : Bool) :
    (attempts.flatMap fun attempt => Batch.ofSends (attempt.sends sender linked)).flatten =
      attempts.flatMap (·.sends sender linked) := by
  induction attempts with
  | nil => rfl
  | cons attempt rest ih =>
    rw [List.flatMap_cons, List.flatMap_cons, List.flatten_append, Batch.flatten_ofSends, ih]

/-- There are as many batches of several attempts as there are attempts in which something is
sent. -/
theorem Attempt.length_batches (attempts : List Attempt) (sender : NodeId) (linked : Bool) :
    (attempts.flatMap fun attempt => Batch.ofSends (attempt.sends sender linked)).length =
      attempts.countP fun attempt => !(attempt.sends sender linked).isEmpty := by
  induction attempts with
  | nil => rfl
  | cons attempt rest ih =>
    rw [List.flatMap_cons, List.length_append, ih, List.countP_cons, Nat.add_comm]
    cases attempt.sends sender linked <;> rfl

namespace Policy

variable {π : Type} [Policy π]

/-- Draws the peers for several messages, one after the other. -/
def draws (policy : π) (peers : List NodeId) : List Push → List Attempt × π
  | [] => ([], policy)
  | push :: rest =>
    let (targets, drawn) := select policy peers push.excluded
    let (others, last) := draws drawn peers rest
    (⟨push.message, targets⟩ :: others, last)

/-- Peers are drawn for each message in turn, from policies that come one of the other. -/
theorem exists_select_of_draws (policy : π) (peers : List NodeId) (pushes : List Push) :
    List.Forall₂ (fun push attempt => ∃ drawn : π, LeadsTo policy drawn ∧
        attempt = ⟨push.message, (select drawn peers push.excluded).1⟩)
      pushes (draws policy peers pushes).1 := by
  induction pushes generalizing policy with
  | nil => exact .nil
  | cons push rest ih =>
    refine .cons ⟨policy, .refl, rfl⟩ ?_
    have hfirst : LeadsTo policy (select policy peers push.excluded).2 :=
      LeadsTo.refl.select peers push.excluded
    exact (ih (select policy peers push.excluded).2).imp
      fun _ _ ⟨drawn, hleads, heq⟩ => ⟨drawn, hfirst.trans hleads, heq⟩

/-- Each message is attempted once, in its turn. -/
theorem map_message_draws (policy : π) (peers : List NodeId) (pushes : List Push) :
    (draws policy peers pushes).1.map (·.message) = pushes.map (·.message) := by
  induction pushes generalizing policy with
  | nil => rfl
  | cons push rest ih => exact congrArg (push.message :: ·) (ih _)

end Policy

namespace Node

variable {π : Type} [Policy π]

/-- What a push sends, and what it leaves of the protocol. -/
theorem push_eq_draws (node : Node) (protocol : π) (linked : Bool) (message : Message)
    (excluded : Option NodeId) :
    (node.push protocol linked message excluded).sends =
        (Policy.draws protocol node.peers [⟨message, excluded⟩]).1.flatMap
          (·.sends node.id linked) ∧
      (node.push protocol linked message excluded).protocol =
        (Policy.draws protocol node.peers [⟨message, excluded⟩]).2 := by
  refine ⟨?_, rfl⟩
  simp only [Policy.draws, List.flatMap_cons, List.flatMap_nil, List.append_nil]
  rfl

/-- Several pushes hand over a batch for each attempt in which something is sent, and leave of the
protocol what the attempts leave. -/
theorem pushAll_eq_draws (node : Node) (protocol : π) (linked : Bool) (messages : List Message) :
    node.batchesOfAll protocol linked messages =
        (Policy.draws protocol node.peers (messages.map (⟨·, none⟩))).1.flatMap
          (fun attempt => Batch.ofSends (attempt.sends node.id linked)) ∧
      (node.pushAll protocol linked messages).protocol =
        (Policy.draws protocol node.peers (messages.map (⟨·, none⟩))).2 := by
  induction messages generalizing node protocol with
  | nil => exact ⟨rfl, rfl⟩
  | cons message rest ih =>
    obtain ⟨forwards, hpush⟩ := push_eq node protocol linked message none
    obtain ⟨hbatches, hprotocol⟩ := ih (node.push protocol linked message none).node
      (node.push protocol linked message none).protocol
    rw [batchesOfAll, pushAll, hbatches, hprotocol, hpush]
    exact ⟨rfl, rfl⟩

end Node

namespace Life

variable {σ : Type}

/-- The messages that a node has to push when something is done to it: the message of a broadcast, a
new message that is passed on, or in a rumor round all that it keeps. -/
def due (life : Life (Protocol σ)) (now : Nat) : Deed → List Push
  | .broadcast id kind payload =>
    if life.node.isDown || !life.linked then []
    else [⟨life.node.compose now id kind payload, none⟩]
  | .receive message sender =>
    if life.node.isDown || life.node.hasSeen message.id || !life.protocol.forwards message now then []
    else [⟨message, some sender⟩]
  | .gossipRound =>
    if life.node.isDown then [] else life.node.rumors.map fun rumor => ⟨rumor.message, none⟩
  | _ => []

/-- A node that is down has nothing to push. -/
theorem due_of_isDown {life : Life (Protocol σ)} (h : life.node.isDown = true) (now : Nat)
    (deed : Deed) : life.due now deed = [] := by
  cases deed <;> simp [due, h]

/-- Outside of rumor rounds one message at most is to be pushed. -/
theorem length_due_le (life : Life (Protocol σ)) (now : Nat) {deed : Deed}
    (hround : deed ≠ .gossipRound) : (life.due now deed).length ≤ 1 := by
  cases deed with
  | addPeer | shutdown | unlink => exact Nat.zero_le 1
  | broadcast =>
    rw [due]
    split <;> simp
  | receive =>
    rw [due]
    split <;> simp
  | gossipRound => exact absurd rfl hround

variable [Random.Chooser σ]

/-- The attempts that a node makes when something is done to it. -/
def attempts (life : Life (Protocol σ)) (now : Nat) (deed : Deed) : List Attempt :=
  (Policy.draws life.protocol life.node.peers (life.due now deed)).1

/-- A broadcast sends what its attempt says, and draws no more. -/
theorem step_broadcast_eq_draws (life : Life (Protocol σ)) (now : Nat) (id : MessageId) (kind : String)
    (payload : Payload) :
    (life.step now (.broadcast id kind payload)).2 =
        (life.attempts now (.broadcast id kind payload)).flatMap
          (·.sends life.node.id life.linked) ∧
      (life.step now (.broadcast id kind payload)).1.protocol =
        (Policy.draws life.protocol life.node.peers (life.due now (.broadcast id kind payload))).2 := by
  cases hdown : life.node.isDown with
  | true =>
    simp only [attempts, due, step, follow, Node.broadcast_of_isDown hdown, hdown]
    exact ⟨rfl, rfl⟩
  | false =>
    cases hlinked : life.linked with
    | false =>
      simp only [attempts, due, step, follow, Node.broadcast_eq hdown, hdown, hlinked]
      split <;> exact ⟨rfl, rfl⟩
    | true =>
      have hdue : life.due now (.broadcast id kind payload) =
          [⟨life.node.compose now id kind payload, none⟩] := by simp [due, hdown, hlinked]
      rw [attempts, hdue]
      simp only [step, follow, Node.broadcast_eq hdown, hlinked]
      split
      · rename_i hempty
        rw [List.isEmpty_iff.mp hempty]
        simp [Policy.draws, Policy.select, Protocol.select_nil, Attempt.sends]
      · rw [if_neg (by decide)]
        exact Node.push_eq_draws (life.node.originate (life.node.compose now id kind payload))
          life.protocol true (life.node.compose now id kind payload) none

/-- A message that is received is passed on as its attempt says, and no more is drawn. -/
theorem step_receive_eq_draws (life : Life (Protocol σ)) (now : Nat) (message : Message)
    (sender : NodeId) :
    (life.step now (.receive message sender)).2 =
        (life.attempts now (.receive message sender)).flatMap
          (·.sends life.node.id life.linked) ∧
      (life.step now (.receive message sender)).1.protocol =
        (Policy.draws life.protocol life.node.peers (life.due now (.receive message sender))).2 := by
  cases hdown : life.node.isDown with
  | true =>
    simp only [attempts, due, step, follow, Node.receive_of_isDown hdown, hdown]
    exact ⟨rfl, rfl⟩
  | false =>
    cases hseen : life.node.hasSeen message.id with
    | true =>
      simp only [attempts, due, step, follow, Node.receive_of_hasSeen hdown hseen, hdown, hseen]
      exact ⟨rfl, rfl⟩
    | false =>
      cases hforwards : life.protocol.forwards message now with
      | false =>
        simp only [attempts, due, step, follow, Node.receive_eq hdown hseen, hdown, hseen, hforwards,
          Protocol.policy_forwards]
        exact ⟨rfl, rfl⟩
      | true =>
        simp only [attempts, due, step, follow, Node.receive_eq hdown hseen, hdown, hseen, hforwards,
          Protocol.policy_forwards]
        exact Node.push_eq_draws (life.node.accept message true) life.protocol life.linked message
          (some sender)

/-- If one message at most is to be pushed, its sends are the batch. -/
theorem ofSends_eq_attempts (life : Life (Protocol σ)) {now : Nat} {deed : Deed}
    (hdue : (life.due now deed).length ≤ 1) :
    Batch.ofSends ((life.attempts now deed).flatMap (·.sends life.node.id life.linked)) =
      (life.attempts now deed).flatMap fun attempt =>
        Batch.ofSends (attempt.sends life.node.id life.linked) := by
  match h : life.due now deed with
  | [] =>
    rw [attempts, h]
    rfl
  | [push] =>
    rw [attempts, h]
    simp [Policy.draws]
  | _ :: _ :: _ =>
    rw [h] at hdue
    simp at hdue

/-- Whatever is done to a node, it hands over a batch for each attempt in which something is sent, and
its protocol is left as the draws leave it. -/
theorem step_eq_draws (life : Life (Protocol σ)) (now : Nat) (deed : Deed) :
    life.batches now deed = (life.attempts now deed).flatMap
        (fun attempt => Batch.ofSends (attempt.sends life.node.id life.linked)) ∧
      (life.step now deed).1.protocol =
        (Policy.draws life.protocol life.node.peers (life.due now deed)).2 := by
  cases deed with
  | addPeer | shutdown | unlink => exact ⟨rfl, rfl⟩
  | broadcast id kind payload =>
    obtain ⟨hsends, hprotocol⟩ := life.step_broadcast_eq_draws now id kind payload
    refine ⟨?_, hprotocol⟩
    rw [← life.ofSends_eq_attempts (life.length_due_le now Deed.noConfusion), ← hsends]
    rfl
  | receive message sender =>
    obtain ⟨hsends, hprotocol⟩ := life.step_receive_eq_draws now message sender
    refine ⟨?_, hprotocol⟩
    rw [← life.ofSends_eq_attempts (life.length_due_le now Deed.noConfusion), ← hsends]
    rfl
  | gossipRound =>
    cases hdown : life.node.isDown with
    | true =>
      rw [batches_gossipRound_of_isDown hdown, attempts, due_of_isDown hdown, step, follow,
        Node.gossipRound_of_isDown hdown]
      exact ⟨rfl, rfl⟩
    | false =>
      have hdue : life.due now .gossipRound =
          (life.node.rumors.map (·.message)).map (⟨·, none⟩) := by simp [due, hdown]
      obtain ⟨hbatches, hprotocol⟩ := Node.pushAll_eq_draws
        ({ life.node with rumors := Node.ageRumors life.node.rumors } : Node) life.protocol
        life.linked (life.node.rumors.map (·.message))
      rw [batches_gossipRound_of_isUp hdown, attempts, hdue, hbatches]
      refine ⟨rfl, ?_⟩
      rw [step, follow, Node.gossipRound, if_neg (ne_true_of_eq_false hdown)]
      exact hprotocol

/-- A node sends what its attempts say, in their order. -/
theorem sends_eq_attempts (life : Life (Protocol σ)) (now : Nat) (deed : Deed) :
    (life.step now deed).2 =
      (life.attempts now deed).flatMap (·.sends life.node.id life.linked) := by
  rw [← life.flatten_batches, (life.step_eq_draws now deed).1, Attempt.flatten_batches]

/-- A node counts the attempts in which something is sent. -/
theorem forwards_eq_attempts (life : Life (Protocol σ)) (now : Nat) (deed : Deed) :
    (life.step now deed).1.node.stats.forwards = life.node.stats.forwards +
      (life.attempts now deed).countP fun attempt =>
        !(attempt.sends life.node.id life.linked).isEmpty := by
  rw [forwards_step, (life.step_eq_draws now deed).1, Attempt.length_batches]

end Life

end Epidemic
