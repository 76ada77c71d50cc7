import Epidemic.Proofs.Convergence.Waiting
import Epidemic.Proofs.Simulation.Traffic
import Epidemic.Proofs.World.Holders

/-!
# A key with one writer

If one broadcast alone sets a key, the nodes that hold a value for it are those that have seen this
broadcast, and they hold the value that it gives. So they can only become more, and once all nodes
agree on the key they agree on it for good.
-/

namespace Epidemic

/-- Whether one of several messages with different ids is the only one that sets a key, and what
value it gives. All doubles in the value are numbers, as they are in every value that is read from a
text. -/
structure Message.SoleWriter (made : List Message) (key : String) (message : Message)
    (value : Json.Value) : Prop where
  /-- No two messages have one id. -/
  distinct : (made.map (·.id)).Nodup
  /-- No other message sets the key. -/
  only : made.filter (·.sets key) = [message]
  /-- The message gives the value. -/
  gives : Json.Members.last? key message.payload = some value
  /-- The value equals itself. -/
  numeric : value.isNumeric = true

/-- The only message that sets a key was made. -/
theorem Message.SoleWriter.mem {made : List Message} {key : String} {message : Message}
    {value : Json.Value} (h : SoleWriter made key message value) : message ∈ made := by
  have hfiltered : message ∈ made.filter (·.sets key) := by
    rw [h.only]
    exact List.mem_singleton.mpr rfl
  exact (List.mem_filter.mp hfiltered).1

/-- A node holds the value exactly if it has seen the message. -/
theorem Node.Knows.get?_eq {made : List Message} {node : Node} (h : node.Knows made) {key : String}
    {message : Message} {value : Json.Value} (hsole : Message.SoleWriter made key message value) :
    node.get? key = if node.hasSeen message.id then some value else none := by
  obtain ⟨messages, hstate, hmessages⟩ := h.exists_state_eq hsole.distinct
  have hothers : ∀ other ∈ messages,
      other = message ∨ Json.Members.last? key other.payload = none := by
    intro other hother
    have hmade := ((hmessages other).mp hother).1
    exact Message.eq_or_last?_eq_none hsole.only hmade
  rw [get?, hstate, Message.get?_mergeAll_nil]
  cases hseen : node.hasSeen message.id with
  | true =>
    have hmem := (hmessages message).mpr ⟨hsole.mem, List.contains_iff_mem.mp hseen⟩
    rw [if_pos rfl, Message.last?_flatMap hmem hothers]
    exact hsole.gives
  | false =>
    rw [if_neg Bool.false_ne_true]
    cases hlast : Json.Members.last? key (messages.flatMap (·.payload)) with
    | none => rfl
    | some other =>
      obtain ⟨giver, hgiver, hgives⟩ := Message.exists_of_last?_flatMap hlast
      rcases hothers giver hgiver with rfl | hnone
      · have hknown := List.contains_iff_mem.mpr ((hmessages giver).mp hgiver).2
        rw [hasSeen, hknown] at hseen
        cases hseen
      · rw [hnone] at hgives
        cases hgives

namespace Simulation

variable {σ : Type} [Random.Source σ]

section Founded

variable {config : SimulationConfig} {generators : Generators σ} {hasClock : Bool}
  {start : Simulation σ} {occurrences : List Occurrence} {key : String} {message : Message}
  {value : Json.Value}

/-- A report on a key with one writer counts the nodes that have seen its message, and there is one.
-/
theorem Founded.report_of_soleWriter (h : start.Founded config generators hasClock)
    (hsole : Message.SoleWriter (start.broadcasts occurrences) key message value) :
    let reached := start.proceedAll occurrences
    let seeing := reached.world.nodes.countP (·.hasSeen message.id)
    1 ≤ seeing ∧
      reached.report key =
        { key
          totalNodes := config.nodeCount
          agreeingNodes := seeing
          missingNodes := config.nodeCount - seeing
          value := some value } := by
  intro reached seeing
  have hknowledge := h.knowledge_proceedAll hsole.distinct
  have hheld : ∀ node ∈ reached.world.nodes,
      node.get? key = if node.hasSeen message.id then some value else none := by
    intro node hnode
    obtain ⟨member, hmember, rfl⟩ := List.mem_map.mp hnode
    exact (hknowledge.knows member hmember).get?_eq hsole
  have hseen : reached.world.AllSeen (start.broadcasts occurrences) := by
    have hnone : start.world.AllSeen [] := fun _ hmem => absurd hmem List.not_mem_nil
    exact hnone.passage (start.passage_proceedAll occurrences)
  have hsome : 1 ≤ seeing := by
    obtain ⟨place, member, hplace, hmember⟩ := hseen message hsole.mem
    refine List.countP_pos_iff.mpr ⟨member.node, ?_, List.contains_iff_mem.mpr hmember⟩
    exact List.mem_map_of_mem (List.mem_of_getElem? hplace)
  have hcount : reached.world.nodes.length = config.nodeCount := h.length_nodes hsole.distinct
  have hreport := Convergence.Report.ofNodes_of_holders hsole.numeric hheld
  have hpositive : 0 < reached.world.nodes.countP (fun node => node.hasSeen message.id) := hsome
  refine ⟨hsome, ?_⟩
  rw [report_eq, hreport, hcount, if_pos hpositive]

/-- While nobody else sets the key, the nodes that agree become no fewer, and if they are all nodes
they stay so. -/
theorem Founded.agreement_grows (h : start.Founded config generators hasClock)
    (hsole : Message.SoleWriter (start.broadcasts occurrences) key message value)
    {later : List Occurrence}
    (hsoleLater : Message.SoleWriter (start.broadcasts (occurrences ++ later)) key message value) :
    let reached := start.proceedAll occurrences
    let after := reached.proceedAll later
    (reached.report key).agreeingNodes ≤ (after.report key).agreeingNodes ∧
      ((reached.report key).isConverged = true → (after.report key).isConverged = true) := by
  intro reached after
  obtain ⟨-, hreport⟩ := h.report_of_soleWriter hsole
  obtain ⟨-, hreportLater⟩ := h.report_of_soleWriter hsoleLater
  rw [proceedAll_append] at hreportLater
  have hgrows : reached.world.nodes.countP (·.hasSeen message.id) ≤
      after.world.nodes.countP (·.hasSeen message.id) :=
    (reached.passage_proceedAll later).countP_hasSeen_le message.id
  have hbound : after.world.nodes.countP (·.hasSeen message.id) ≤ config.nodeCount := by
    have hcount := h.length_nodes hsoleLater.distinct
    rw [proceedAll_append] at hcount
    rw [← hcount]
    exact List.countP_le_length
  rw [hreport, hreportLater]
  refine ⟨hgrows, fun hconverged => ?_⟩
  simp only [Convergence.Report.isConverged, Bool.and_eq_true, decide_eq_true_eq, beq_iff_eq]
    at hconverged ⊢
  obtain ⟨hsome, hall⟩ := hconverged
  have hall : reached.world.nodes.countP (·.hasSeen message.id) = config.nodeCount := hall
  rw [hall] at hgrows
  exact ⟨hsome, Nat.le_antisymm hbound hgrows⟩

/-- A wait that ends with success leaves nodes that agree. -/
theorem Founded.isConverged_of_wait (h : start.Founded config generators hasClock)
    (hdistinct : ((start.broadcasts occurrences).map (·.id)).Nodup) {timeout : Duration}
    (hwait : ((start.proceedAll occurrences).wait key timeout).1 = true) :
    (((start.proceedAll occurrences).wait key timeout).2.report key).isConverged = true := by
  obtain ⟨ticks, hticks, hnone⟩ := (start.proceedAll occurrences).exists_proceedAll_wait key timeout
  have hlength : ((start.proceedAll occurrences).wait key timeout).2.world.members.length =
      (start.proceedAll occurrences).world.members.length := by
    have hafter : ((start.broadcasts (occurrences ++ ticks)).map (·.id)).Nodup := by
      rw [broadcasts_append, hnone, List.append_nil]
      exact hdistinct
    have hcounts := (h.length_nodes hafter).trans (h.length_nodes hdistinct).symm
    rw [proceedAll_append, hticks] at hcounts
    simpa only [World.nodes, List.length_map] using hcounts
  have hwatch : ((start.proceedAll occurrences).wait key timeout).2.watch key =
      (start.proceedAll occurrences).watch key := by
    rw [watch, watch, Convergence.Watch.ofAll, Convergence.Watch.ofAll, hlength]
  rw [report, hwatch]
  exact ((start.proceedAll occurrences).watch key).isConverged_wait _ 0 _ |>.trans hwait

end Founded

/-- A simulation with a valid configuration can be set up, and then, whatever happens: if one
broadcast alone sets a key, a report on the key counts exactly the nodes that have seen this broadcast
as those that agree, of which there is at least one, and the others as those without a value, and it
names the value of the broadcast. As long as no other broadcast sets the key, the nodes that agree
become no fewer, and if all nodes agree they do so for good, as they do after a wait that has ended
with success. -/
theorem sole_writer_agreement_grows {config : SimulationConfig} (hvalid : config.check = .ok ())
    (generators : Generators σ) (hasClock : Bool) (wall : Nat) :
    ∃ start, Simulation.new config generators hasClock wall = .ok start ∧
      ∀ occurrences key message value,
        Message.SoleWriter (start.broadcasts occurrences) key message value →
        let reached := start.proceedAll occurrences
        let seeing := reached.world.nodes.countP (·.hasSeen message.id)
        1 ≤ seeing ∧
        reached.report key =
          { key
            totalNodes := config.nodeCount
            agreeingNodes := seeing
            missingNodes := config.nodeCount - seeing
            value := some value } ∧
        (∀ later, Message.SoleWriter (start.broadcasts occurrences ++ reached.broadcasts later) key
            message value →
          (reached.report key).agreeingNodes ≤ ((reached.proceedAll later).report key).agreeingNodes ∧
          ((reached.report key).isConverged = true →
            ((reached.proceedAll later).report key).isConverged = true)) ∧
        ∀ timeout, (reached.wait key timeout).1 = true →
          ∀ later, Message.SoleWriter
              (start.broadcasts occurrences ++ (reached.wait key timeout).2.broadcasts later) key
              message value →
            (((reached.wait key timeout).2.proceedAll later).report key).isConverged = true := by
  obtain ⟨start, hnew, h⟩ := exists_founded hvalid generators hasClock wall
  refine ⟨start, hnew, fun occurrences key message value hsole => ?_⟩
  intro reached seeing
  obtain ⟨hsome, hreport⟩ := h.report_of_soleWriter hsole
  refine ⟨hsome, hreport, fun later hsoleLater => ?_, fun timeout hwait later hsoleLater => ?_⟩
  · rw [← broadcasts_append] at hsoleLater
    exact h.agreement_grows hsole hsoleLater
  · obtain ⟨ticks, hticks, hnone⟩ := reached.exists_proceedAll_wait key timeout
    have hafter : start.proceedAll (occurrences ++ ticks) = (reached.wait key timeout).2 := by
      rw [proceedAll_append]
      exact hticks
    have hmade : start.broadcasts (occurrences ++ ticks) = start.broadcasts occurrences := by
      rw [broadcasts_append, hnone, List.append_nil]
    have hsoleWait : Message.SoleWriter (start.broadcasts (occurrences ++ ticks)) key message
        value := by
      rw [hmade]
      exact hsole
    have hsoleAfter : Message.SoleWriter (start.broadcasts ((occurrences ++ ticks) ++ later)) key
        message value := by
      rw [broadcasts_append, hmade, hafter]
      exact hsoleLater
    have hgrows := (h.agreement_grows hsoleWait hsoleAfter).2
    rw [hafter] at hgrows
    exact hgrows (h.isConverged_of_wait hsole.distinct hwait)

/-- After two broadcasts have crossed each other, one of them the only one that sets its key, a node
is taken off the network and shut down. -/
def dismantled : List Occurrence :=
  [.happens (.unregister "node-2") rfl, .happens (.shutdown 2) rfl]

/-- All three nodes hold the value of the first broadcast before, and agree on it afterwards. -/
theorem sole_writer_agreement_grows_crossed :
    ∃ start,
      Simulation.new trio (⟨⟨[]⟩, ⟨[]⟩, ⟨[]⟩⟩ : Generators Random.Script) true 0 = .ok start ∧
      (start.proceedAll crossed).report "first" = ⟨"first", 3, 3, 0, some (.int 1)⟩ ∧
      (((start.proceedAll crossed).proceedAll dismantled).report "first").isConverged = true := by
  have hvalid : trio.check = .ok () := rfl
  obtain ⟨start, hnew, hgrows⟩ := sole_writer_agreement_grows hvalid
    (⟨⟨[]⟩, ⟨[]⟩, ⟨[]⟩⟩ : Generators Random.Script) true 0
  have hfacts : (Simulation.new trio (⟨⟨[]⟩, ⟨[]⟩, ⟨[]⟩⟩ : Generators Random.Script) true
      0).toOption.map (fun start =>
        (start.proceedAll crossed).world.nodes.countP (·.hasSeen "first")) = some 3 := by
    decide +kernel
  rw [hnew] at hfacts
  have hseeing : (start.proceedAll crossed).world.nodes.countP (·.hasSeen "first") = 3 :=
    Option.some.inj hfacts
  have hsole : Message.SoleWriter (start.broadcasts crossed) "first"
      ⟨"first", "update", "node-0", [("all", .int 7), ("first", .int 1)], 0⟩ (.int 1) := by
    rw [broadcasts_crossed hnew]
    exact ⟨by decide, rfl, rfl, rfl⟩
  obtain ⟨-, hreport, hlater, -⟩ := hgrows crossed "first" _ _ hsole
  rw [hseeing] at hreport
  have hnone : (start.proceedAll crossed).broadcasts dismantled = [] := rfl
  have hconverged : ((start.proceedAll crossed).report "first").isConverged = true := by
    rw [hreport]
    rfl
  have hafter := (hlater dismantled (by rw [hnone, List.append_nil]; exact hsole)).2 hconverged
  exact ⟨start, hnew, hreport, hafter⟩

end Simulation

end Epidemic
