import Epidemic.Proofs.Node.Life
import Epidemic.Proofs.Selection
import Epidemic.Random.Script

/-!
# The age bound and rumor rounds

A protocol with an age bound is asked once for each message, when the node learns it. A rumor round
pushes what was kept at that time and does not ask again, however late it comes. So the bound holds
for everything that is passed on at once, and it holds for rumor rounds exactly as long as nothing
that is kept has grown too old.
-/

namespace Epidemic

/-- Whether the sends made by it pass on what the node has learned, or repeat it. -/
def Deed.isRelay : Deed → Bool
  | .receive _ _ => true
  | .gossipRound => true
  | _ => false

/-- A message that is passed on at once is not older than the bound. -/
theorem Protocol.age_le_of_forwards {σ : Type} {protocol : Protocol σ} {bound : Duration}
    (hbound : protocol.maxAge = some bound) {message : Message} {now : Nat}
    (h : protocol.forwards message now = true) :
    message.age now ≤ bound.millis := by
  rw [forwards, hbound] at h
  exact of_decide_eq_true h

/-- If the network can be reached, there is a peer and any fanout at all, each of several messages
is sent. -/
theorem Node.exists_mem_pushAll {σ : Type} [Random.Chooser σ] {node : Node} {protocol : Protocol σ}
    {messages : List Message} {message : Message} (hfanout : 0 < protocol.fanout)
    (hpeers : node.peers ≠ []) (hmem : message ∈ messages) :
    ∃ envelope ∈ (node.pushAll protocol true messages).sends, envelope.message = message := by
  induction messages generalizing node protocol with
  | nil => cases hmem
  | cons first rest ih =>
    obtain ⟨forwards, hpush⟩ := Node.push_eq node protocol true first none
    rw [Node.pushAll]
    rcases List.mem_cons.mp hmem with rfl | hmem
    · obtain ⟨peer, hpeer⟩ := List.exists_mem_of_ne_nil _ hpeers
      have hdrawn := Protocol.select_ne_nil hfanout hpeer (Option.some_ne_none peer).symm
      obtain ⟨target, htarget⟩ := List.exists_mem_of_ne_nil _ hdrawn
      refine ⟨⟨node.id, target, message⟩, List.mem_append_left _ ?_, rfl⟩
      rw [hpush]
      exact Node.mem_batch.mpr ⟨target, htarget, rfl⟩
    · have hfanout : 0 < (node.push protocol true first none).protocol.fanout := by
        rw [hpush]
        exact hfanout
      have hpeers : (node.push protocol true first none).node.peers ≠ [] := by
        rw [hpush]
        exact hpeers
      obtain ⟨envelope, hsent, hcarries⟩ := ih hfanout hpeers hmem
      exact ⟨envelope, List.mem_append_right _ hsent, hcarries⟩

namespace Life

variable {σ : Type} [Random.Chooser σ]

/-- The sends with which a node passes a message on or repeats it: all but those of its
broadcasts. -/
def resends (life : Life (Protocol σ)) (now : Nat) (deed : Deed) : List Envelope :=
  if deed.isRelay then (life.step now deed).2 else []

/-- Whether no message is older than the bound when it is sent again. -/
def ResendsWithin (bound : Duration) (life : Life (Protocol σ)) (entries : List (Nat × Deed)) : Prop :=
  ∀ before now deed after, entries = before ++ (now, deed) :: after →
    ∀ envelope ∈ (life.run before).resends now deed, envelope.message.age now ≤ bound.millis

/-- Whether a rumor round at a reading of the wall clock finds nothing to send that is older than
the bound. -/
def RoundWithin (bound : Duration) (now : Nat) (life : Life (Protocol σ)) : Prop :=
  life.node.isDown = true ∨ life.linked = false ∨ life.node.peers = [] ∨ life.protocol.fanout = 0 ∨
    ∀ rumor ∈ life.node.rumors, rumor.message.age now ≤ bound.millis

/-- Whether what a node keeps for its rumor rounds was offered to it at a time when it was not older
than the bound. -/
def KeptInTime (bound : Duration) (entries : List (Nat × Deed)) (node : Node) : Prop :=
  ∀ rumor ∈ node.rumors, 0 < node.rumorRounds ∧ ∃ entry ∈ entries,
    entry.2.message? node.id entry.1 = some rumor.message ∧
      rumor.message.age entry.1 ≤ bound.millis

variable {bound : Duration} {life after : Life (Protocol σ)} {now : Nat} {deed : Deed}
  {sends : List Envelope}

/-- What a node sends again on receiving a message is this message, and it is not older than the
bound. -/
theorem of_mem_resends_receive (hbound : life.protocol.maxAge = some bound) {message : Message}
    {sender : NodeId} {envelope : Envelope}
    (h : envelope ∈ life.resends now (.receive message sender)) :
    envelope.message = message ∧ message.age now ≤ bound.millis := by
  have hsent : envelope ∈
      (life.node.receive life.protocol life.linked now message sender).sends := h
  refine ⟨Node.message_of_mem_receive hsent, ?_⟩
  have hclear := Node.isDown_or_hasSeen_of_receive (List.ne_nil_of_mem hsent)
  rw [Bool.or_eq_false_iff] at hclear
  obtain ⟨-, -, -, hsends⟩ :=
    Node.receive_of_isNew hclear.1 hclear.2 life.protocol life.linked now sender
  rw [hsends] at hsent
  split at hsent
  · rename_i hforwards
    rw [Bool.and_eq_true] at hforwards
    exact Protocol.age_le_of_forwards hbound hforwards.1
  · cases hsent

/-- What a node sends in a rumor round was kept for it. -/
theorem of_mem_resends_gossipRound {envelope : Envelope}
    (h : envelope ∈ life.resends now .gossipRound) :
    life.node.isDown = false ∧ life.linked = true ∧ life.node.peers ≠ [] ∧
      0 < life.protocol.fanout ∧ ∃ rumor ∈ life.node.rumors, rumor.message = envelope.message := by
  have hsent : envelope ∈ (life.node.gossipRound life.protocol life.linked).sends := h
  cases hdown : life.node.isDown with
  | true =>
    rw [Node.gossipRound_of_isDown hdown] at hsent
    cases hsent
  | false =>
    rw [(Node.gossipRound_of_isUp hdown life.protocol life.linked).2.2] at hsent
    obtain ⟨hlinked, hfanout, hmessage, -, hpeer⟩ := Node.of_mem_pushAll hsent
    obtain ⟨rumor, hrumor, hcarries⟩ := List.mem_map.mp hmessage
    exact ⟨rfl, hlinked, List.ne_nil_of_mem hpeer, hfanout, rumor, hrumor, hcarries⟩

/-- If a node sends anything in a rumor round, it sends all that it keeps. -/
theorem exists_mem_resends_gossipRound (now : Nat) (hup : life.node.isDown = false)
    (hlinked : life.linked = true)
    (hpeers : life.node.peers ≠ []) (hfanout : 0 < life.protocol.fanout) {rumor : Rumor}
    (h : rumor ∈ life.node.rumors) :
    ∃ envelope ∈ life.resends now .gossipRound, envelope.message = rumor.message := by
  have hresends : life.resends now .gossipRound =
      (({ life.node with rumors := Node.ageRumors life.node.rumors } : Node).pushAll life.protocol
        true (life.node.rumors.map (·.message))).sends := by
    rw [← hlinked]
    exact (Node.gossipRound_of_isUp hup life.protocol life.linked).2.2
  rw [hresends]
  exact Node.exists_mem_pushAll hfanout hpeers (List.mem_map_of_mem h)

/-- A rumor round stays within the bound exactly if it finds nothing to send that is too old. -/
theorem resends_gossipRound_within_iff :
    (∀ envelope ∈ life.resends now .gossipRound, envelope.message.age now ≤ bound.millis) ↔
      life.RoundWithin bound now := by
  constructor
  · intro hwithin
    by_cases hdown : life.node.isDown = true
    · exact Or.inl hdown
    by_cases hlinked : life.linked = false
    · exact Or.inr (Or.inl hlinked)
    by_cases hpeers : life.node.peers = []
    · exact Or.inr (Or.inr (Or.inl hpeers))
    by_cases hfanout : life.protocol.fanout = 0
    · exact Or.inr (Or.inr (Or.inr (Or.inl hfanout)))
    refine Or.inr (Or.inr (Or.inr (Or.inr fun rumor hrumor => ?_)))
    obtain ⟨envelope, hsent, hcarries⟩ := exists_mem_resends_gossipRound now
      (eq_false_of_ne_true hdown) (eq_true_of_ne_false hlinked) hpeers
      (Nat.pos_of_ne_zero hfanout) hrumor
    rw [← hcarries]
    exact hwithin envelope hsent
  · intro hround envelope hsent
    obtain ⟨hup, hlinked, hpeers, hfanout, rumor, hrumor, hcarries⟩ :=
      of_mem_resends_gossipRound hsent
    rcases hround with hdown | hunlinked | hnone | hzero | hrumors
    · exact absurd hdown (ne_true_of_eq_false hup)
    · exact absurd hlinked (ne_true_of_eq_false hunlinked)
    · exact absurd hnone hpeers
    · exact absurd hzero (Nat.ne_of_gt hfanout)
    · rw [← hcarries]
      exact hrumors rumor hrumor

/-- What a node keeps after something was done to it, it kept before or was offered just now, when
it was not older than the bound. -/
theorem Course.of_mem_rumors (h : Course life now deed after sends)
    (hbound : life.protocol.maxAge = some bound) {rumor : Rumor}
    (hrumor : rumor ∈ after.node.rumors) :
    (∃ earlier ∈ life.node.rumors, earlier.message = rumor.message) ∨
      deed.message? life.node.id now = some rumor.message ∧
        rumor.message.age now ≤ bound.millis ∧ 0 < life.node.rumorRounds := by
  cases h with
  | still _ hnode _ _ =>
    obtain ⟨peers, isDown, duplicates, hnode⟩ := hnode
    rw [hnode] at hrumor
    exact Or.inl ⟨rumor, hrumor, rfl⟩
  | originate hdeed _ hnode _ =>
    subst hdeed
    rw [hnode] at hrumor
    rcases List.mem_append.mp hrumor with hearlier | hkept
    · exact Or.inl ⟨rumor, hearlier, rfl⟩
    · obtain ⟨hrounds, heq⟩ := Node.mem_keepsakes.mp hkept
      subst heq
      refine Or.inr ⟨rfl, ?_, hrounds⟩
      rw [Message.age, Node.compose, Nat.sub_self]
      exact Nat.zero_le _
  | accept hdeed _ _ hnode _ =>
    subst hdeed
    rw [hnode] at hrumor
    rcases List.mem_append.mp hrumor with hearlier | hkept
    · exact Or.inl ⟨rumor, hearlier, rfl⟩
    · split at hkept
      · rename_i hforwards
        obtain ⟨hrounds, heq⟩ := Node.mem_keepsakes.mp hkept
        subst heq
        exact Or.inr ⟨rfl, Protocol.age_le_of_forwards hbound hforwards, hrounds⟩
      · cases hkept
  | round _ _ hnode _ =>
    rw [hnode] at hrumor
    exact Or.inl (Node.mem_ageRumors hrumor)

/-- What a node keeps was in time, step after step. -/
theorem KeptInTime.step {past : List (Nat × Deed)} (h : KeptInTime bound past life.node)
    (hbound : life.protocol.maxAge = some bound) (now : Nat) (deed : Deed) :
    KeptInTime bound (past ++ [(now, deed)]) (life.step now deed).1.node := by
  intro rumor hrumor
  obtain ⟨hid, hrounds, -⟩ := (course_step life now deed).keeps
  rw [hid, hrounds]
  rcases (course_step life now deed).of_mem_rumors hbound hrumor with hearlier | hlearned
  · obtain ⟨earlier, hmem, heq⟩ := hearlier
    obtain ⟨hpositive, entry, hentry, hoffered⟩ := h earlier hmem
    rw [heq] at hoffered
    exact ⟨hpositive, entry, List.mem_append_left _ hentry, hoffered⟩
  · obtain ⟨hoffered, hage, hpositive⟩ := hlearned
    exact ⟨hpositive, (now, deed), List.mem_append_right _ List.mem_cons_self, hoffered, hage⟩

omit [Random.Chooser σ] in
/-- A new node keeps nothing. -/
theorem keptInTime_new (bound : Duration) (id : NodeId) (rumorRounds : Nat)
    (protocol : Protocol σ) :
    KeptInTime bound [] (new id rumorRounds protocol).node :=
  fun _ hrumor => absurd hrumor List.not_mem_nil

/-- What a node keeps was in time, whatever is done to it. -/
theorem KeptInTime.run {past : List (Nat × Deed)} (h : KeptInTime bound past life.node)
    (hbound : life.protocol.maxAge = some bound) (entries : List (Nat × Deed)) :
    KeptInTime bound (past ++ entries) (life.run entries).node := by
  induction entries generalizing life past with
  | nil =>
    rw [List.append_nil]
    exact h
  | cons entry rest ih =>
    have hrest := ih (h.step hbound entry.1 entry.2)
      ((Protocol.sameRules_of_leadsTo (course_step life entry.1 entry.2).keeps.2.2).2.trans hbound)
    rw [List.append_assoc] at hrest
    exact hrest

/-- The age of a message grows by no more than the time that passes. -/
theorem age_le_add (message : Message) (earlier later : Nat) :
    message.age later ≤ message.age earlier + (later - earlier) := by
  unfold Message.age
  omega

/-- The re-sends stay within the bound exactly if the rumor rounds do. -/
theorem resendsWithin_iff_roundWithin (life : Life (Protocol σ))
    (hbound : life.protocol.maxAge = some bound) (entries : List (Nat × Deed)) :
    life.ResendsWithin bound entries ↔
      ∀ before now after, entries = before ++ (now, .gossipRound) :: after →
        (life.run before).RoundWithin bound now := by
  constructor
  · intro hwithin before now after hsplit
    exact resends_gossipRound_within_iff.mp (hwithin before now .gossipRound after hsplit)
  · intro hround before now deed after hsplit envelope hsent
    cases deed with
    | receive message sender =>
      obtain ⟨heq, hle⟩ := of_mem_resends_receive
        ((Protocol.sameRules_of_leadsTo (run_keeps life before).2.2).2.trans hbound) hsent
      rw [heq]
      exact hle
    | gossipRound =>
      exact resends_gossipRound_within_iff.mpr (hround before now after hsplit) envelope hsent
    | addPeer | broadcast | shutdown | unlink => cases hsent

/-- What is sent again was offered to the node when it was not older than the bound. -/
theorem exists_offer_of_mem_resends {past : List (Nat × Deed)}
    (hkept : KeptInTime bound past life.node) (hbound : life.protocol.maxAge = some bound)
    {envelope : Envelope} (h : envelope ∈ life.resends now deed) :
    ∃ entry ∈ past ++ [(now, deed)],
      entry.2.message? life.node.id entry.1 = some envelope.message ∧
        envelope.message.age entry.1 ≤ bound.millis := by
  cases deed with
  | receive message sender =>
    obtain ⟨heq, hle⟩ := of_mem_resends_receive hbound h
    rw [← heq] at hle
    exact ⟨_, List.mem_append_right _ List.mem_cons_self, congrArg some heq.symm, hle⟩
  | gossipRound =>
    obtain ⟨-, -, -, -, rumor, hrumor, heq⟩ := of_mem_resends_gossipRound h
    obtain ⟨-, entry, hentry, hoffered, hle⟩ := hkept rumor hrumor
    rw [heq] at hoffered hle
    exact ⟨entry, List.mem_append_left _ hentry, hoffered, hle⟩
  | addPeer | broadcast | shutdown | unlink => cases h

/-- What a new node sends again is never too old exactly if none of its rumor rounds finds anything
to send that has grown too old. In any case it was offered to the node when it was not too old, so
that it exceeds the bound by no more than the time for which it was kept, and without rumor rounds
it does not exceed the bound at all. -/
theorem resendsWithin_iff (id : NodeId) (rumorRounds : Nat) (protocol : Protocol σ)
    (hbound : protocol.maxAge = some bound) (entries : List (Nat × Deed)) :
    ((new id rumorRounds protocol).ResendsWithin bound entries ↔
      ∀ before now after, entries = before ++ (now, .gossipRound) :: after →
        ((new id rumorRounds protocol).run before).RoundWithin bound now) ∧
    (∀ before now deed after, entries = before ++ (now, deed) :: after →
      ∀ envelope ∈ ((new id rumorRounds protocol).run before).resends now deed,
        ∃ entry ∈ before ++ [(now, deed)], entry.2.message? id entry.1 = some envelope.message ∧
          envelope.message.age entry.1 ≤ bound.millis ∧
          envelope.message.age now ≤ bound.millis + (now - entry.1)) ∧
    (rumorRounds = 0 → (new id rumorRounds protocol).ResendsWithin bound entries) := by
  have hkept (before : List (Nat × Deed)) :
      KeptInTime bound before ((new id rumorRounds protocol).run before).node :=
    (keptInTime_new bound id rumorRounds protocol).run hbound before
  have hiff := resendsWithin_iff_roundWithin (new id rumorRounds protocol) hbound entries
  refine ⟨hiff, ?_, ?_⟩
  · intro before now deed after _ envelope hsent
    obtain ⟨hname, -, hleads⟩ := run_keeps (new id rumorRounds protocol) before
    have hage := (Protocol.sameRules_of_leadsTo hleads).2
    obtain ⟨entry, hentry, hoffered, hle⟩ :=
      exists_offer_of_mem_resends (hkept before) (hage.trans hbound) hsent
    rw [hname] at hoffered
    refine ⟨entry, hentry, hoffered, hle, ?_⟩
    exact Nat.le_trans (age_le_add _ entry.1 now) (Nat.add_le_add_right hle _)
  · intro hzero
    refine hiff.mpr fun before now after _ => ?_
    refine Or.inr (Or.inr (Or.inr (Or.inr fun rumor hrumor => ?_)))
    have hpositive := (hkept before rumor hrumor).1
    rw [(run_keeps (new id rumorRounds protocol) before).2.1] at hpositive
    exact absurd hzero (Nat.ne_of_gt hpositive)

/-- A node that makes a broadcast, and has its rumor round twenty milliseconds later. -/
def lateRound : List (Nat × Deed) :=
  [(0, .addPeer "b"), (0, .broadcast "first" "update" []), (20, .gossipRound)]

/-- A protocol with a bound of ten milliseconds. -/
def tenMillis : Protocol Random.Script := ⟨1, some (Duration.ofMillis 10), ⟨[]⟩⟩

/-- The late round exceeds the bound, although time only moves on. -/
theorem resendsWithin_iff_lateRound :
    tenMillis.maxAge = some (Duration.ofMillis 10) ∧
      lateRound.Pairwise (fun earlier later => earlier.1 ≤ later.1) ∧
      ¬(new "a" 1 tenMillis).ResendsWithin (Duration.ofMillis 10) lateRound := by
  have hbound : tenMillis.maxAge = some (Duration.ofMillis 10) := rfl
  refine ⟨hbound, by decide +kernel, fun hwithin => ?_⟩
  have hround := (resendsWithin_iff "a" 1 tenMillis hbound lateRound).1.mp hwithin
    (lateRound.take 2) 20 [] rfl
  unfold RoundWithin at hround
  revert hround
  decide +kernel

end Life

end Epidemic
