import Epidemic.Proofs.World.Knowledge
import Epidemic.Simulation.Basic
import Mathlib.Data.List.Nodup
import Mathlib.Data.List.ProdSigma

/-!
# The traffic of a world

Every node keeps within its budget of batches for every message, so all batches together are no
more than there are pairs of nodes and messages, times the budget; and every batch holds no more
sends than the fanout. A task that has its turn leaves the queue, and brings no more tasks into it
than it makes sends. So the queue can be drained, in whatever order its tasks have their turn.
-/

namespace Epidemic

/-- If every element has a key, and no key has more elements than a bound, there are no more
elements than there are keys, times the bound. -/
theorem length_le_of_cover {α κ : Type} (belongs : κ → α → Bool) (bound : Nat) (keys : List κ)
    (elements : List α) (hcover : ∀ element ∈ elements, ∃ key ∈ keys, belongs key element = true)
    (hbound : ∀ key ∈ keys, elements.countP (belongs key) ≤ bound) :
    elements.length ≤ bound * keys.length := by
  induction keys generalizing elements with
  | nil =>
    have hnil : elements = [] := List.eq_nil_iff_forall_not_mem.mpr fun element hmem => by
      obtain ⟨key, hkey, -⟩ := hcover element hmem
      cases hkey
    rw [hnil]
    exact Nat.zero_le _
  | cons key rest ih =>
    -- The elements without the first key are covered by the other keys.
    have hrest : (elements.filter fun element => !belongs key element).length ≤
        bound * rest.length := by
      refine ih _ (fun element hmem => ?_) fun other hother => ?_
      · obtain ⟨hmem, hnot⟩ := List.mem_filter.mp hmem
        obtain ⟨other, hother, hbelongs⟩ := hcover element hmem
        rcases List.mem_cons.mp hother with rfl | hlater
        · rw [hbelongs] at hnot
          cases hnot
        · exact ⟨other, hlater, hbelongs⟩
      · have hall := hbound other (List.mem_cons_of_mem key hother)
        exact Nat.le_trans (List.filter_sublist.countP_le) hall
    have hfirst := hbound key List.mem_cons_self
    have hsplit := List.length_eq_countP_add_countP (belongs key) (l := elements)
    rw [← List.countP_eq_length_filter] at hrest
    rw [List.length_cons, Nat.mul_succ]
    simp only [Bool.not_eq_true, Bool.decide_eq_false] at hsplit hrest
    omega

namespace Batch

/-- Batches that are not empty and respect a fanout hold as many sends as there are batches at
least, and at most that many times the fanout. -/
theorem length_flatten {fanout : Nat} {batches : List Batch}
    (h : ∀ batch ∈ batches, batch ≠ [] ∧ batch.length ≤ fanout) :
    batches.length ≤ batches.flatten.length ∧
      batches.flatten.length ≤ fanout * batches.length := by
  induction batches with
  | nil => exact ⟨Nat.le_refl _, Nat.zero_le _⟩
  | cons batch rest ih =>
    obtain ⟨hne, hle⟩ := h batch List.mem_cons_self
    obtain ⟨hlower, hupper⟩ := ih fun other hmem => h other (List.mem_cons_of_mem batch hmem)
    have hpositive := List.length_pos_iff.mpr hne
    rw [List.flatten_cons, List.length_append, List.length_cons, Nat.mul_succ]
    omega

/-- Batches from one node are from this one. -/
theorem filter_isFrom_self {name : NodeId} {batches : List Batch}
    (h : ∀ batch ∈ batches, ∃ message fanout, batch.IsPush name message fanout) :
    batches.filter (isFrom name) = batches := by
  rw [List.filter_eq_self]
  intro batch hmem
  obtain ⟨message, fanout, hpush⟩ := h batch hmem
  exact hpush.isFrom_iff.mpr rfl

/-- Batches from one node are not from another one. -/
theorem filter_isFrom_of_ne {name other : NodeId} (hne : name ≠ other) {batches : List Batch}
    (h : ∀ batch ∈ batches, ∃ message fanout, batch.IsPush name message fanout) :
    batches.filter (isFrom other) = [] := by
  rw [List.filter_eq_nil_iff]
  intro batch hmem hfrom
  obtain ⟨message, fanout, hpush⟩ := h batch hmem
  exact hne (hpush.isFrom_iff.mp hfrom)

end Batch

namespace Simulation

/-- The sum of a counter when one node takes the place of another. -/
theorem total_set (count : Node → Nat) {nodes : List Node} {index : Nat} {node : Node}
    (hat : nodes[index]? = some node) (after : Node) :
    total count (nodes.set index after) + count node = total count nodes + count after := by
  induction nodes generalizing index with
  | nil => cases hat
  | cons first rest ih =>
    cases index with
    | zero =>
      cases hat
      rw [List.set_cons_zero, total, total]
      omega
    | succ index =>
      rw [List.getElem?_cons_succ] at hat
      have hrest := ih hat
      rw [List.set_cons_succ, total, total]
      omega

end Simulation

namespace World

variable {σ : Type} {k : Nat}

/-- The nodes when one member takes the place of another. -/
theorem nodes_set {world after : World σ k} {index : Nat} {member : Member k}
    (h : after.members = world.members.set index member) :
    after.nodes = world.nodes.set index member.node := by
  rw [nodes, h, List.map_set]
  rfl

/-- What is the same of an element and the one that takes its place is the same of all. -/
theorem map_set_of_eq {α β : Type} {f : α → β} {elements : List α} {index : Nat} {element after : α}
    (hat : elements[index]? = some element) (h : f after = f element) :
    (elements.set index after).map f = elements.map f := by
  obtain ⟨hlt, hget⟩ := List.getElem?_eq_some_iff.mp hat
  have hlt : index < (elements.map f).length := by rwa [List.length_map]
  have hentry : f after = (elements.map f)[index] := by rw [h, List.getElem_map, hget]
  rw [List.map_set, hentry]
  exact List.set_getElem_self hlt

/-- A node keeps its name when another state takes the place of its own. -/
theorem names_set [Random.Source σ] {world after : World σ k} {index : Nat} {member : Member k}
    {deed : Deed} (hat : world.members[index]? = some member)
    (hmembers : after.members = world.members.set index
      { member with node := ((world.lifeOf member).step world.wall deed).1.node }) :
    after.nodes.map (·.id) = world.nodes.map (·.id) := by
  have hnode : world.nodes[index]? = some member.node := by
    rw [nodes, List.getElem?_map, hat]
    rfl
  rw [nodes_set hmembers]
  exact map_set_of_eq hnode (Life.course_step (world.lifeOf member) world.wall deed).keeps.1

/-- A member after one has taken the place of another is this one, or has a place of its own. -/
theorem mem_members_set {members : List (Member k)} {index : Nat} {member other : Member k}
    (h : other ∈ members.set index member) :
    other = member ∨ ∃ place, place ≠ index ∧ members[place]? = some other := by
  obtain ⟨place, hplace⟩ := List.mem_iff_getElem?.mp h
  by_cases heq : index = place
  · subst heq
    rw [List.getElem?_set_self'] at hplace
    obtain ⟨_, -, rfl⟩ := Option.map_eq_some_iff.mp hplace
    exact Or.inl rfl
  · rw [List.getElem?_set_ne heq] at hplace
    exact Or.inr ⟨place, fun h => heq h.symm, hplace⟩

/-- Whether the traffic of a world is what its nodes are entitled to: the names of the nodes, the
fanout of their protocols and the number of their rumor rounds are given. -/
structure Traffic (names : List NodeId) (fanout rounds : Nat) (made : List Message)
    (batches : List Batch) (world : World σ k) : Prop where
  /-- Nodes know nothing but the messages that were made. -/
  knowledge : world.Knowledge made
  /-- The nodes have the given names. -/
  named : world.nodes.map (·.id) = names
  /-- The protocols have the given fanout. -/
  rules : ∀ member, (world.protocolOf member).fanout = fanout
  /-- The nodes have the given number of rumor rounds. -/
  keeping : ∀ member ∈ world.members, member.node.rumorRounds = rounds
  /-- Every node keeps within its budget. -/
  thrifty : ∀ member ∈ world.members,
    member.node.Thrifty (batches.filter (Batch.isFrom member.node.id))
  /-- Every batch is a push by one of the nodes. -/
  pushes : ∀ batch ∈ batches, ∃ name ∈ names, ∃ message ∈ made, batch.IsPush name message fanout
  /-- Nothing is sent but the batches. -/
  posted : world.posted = batches.flatten
  /-- All sends are counted. -/
  sent : world.network.stats.sent = world.posted.length
  /-- All batches are counted. -/
  forwards : Simulation.total (·.stats.forwards) world.nodes = batches.length

variable {names : List NodeId} {fanout rounds : Nat} {made more : List Message}
  {batches others : List Batch} {world after : World σ k}

/-- What does not touch nodes and sends does not matter for the traffic. -/
theorem Traffic.still (h : world.Traffic names fanout rounds made batches)
    (hmembers : after.members = world.members) {receptions : List Reception}
    (hbooks : world.Extends [] receptions after) (hknowledge : after.Knowledge made) :
    after.Traffic names fanout rounds made batches where
  knowledge := hknowledge
  named := by rw [nodes, hmembers]; exact h.named
  rules member := (hbooks.rules member).1.trans (h.rules member)
  keeping member hmember := h.keeping member (hmembers ▸ hmember)
  thrifty member hmember := h.thrifty member (hmembers ▸ hmember)
  pushes := h.pushes
  posted := by rw [hbooks.posted, List.append_nil, h.posted]
  sent := by rw [hbooks.sent, hbooks.posted, List.append_nil, h.sent]; rfl
  forwards := by rw [nodes, hmembers]; exact h.forwards

/-- A node hands over no more batches for a message than one, and one more for each rumor round. -/
theorem Traffic.countP_le (h : world.Traffic names fanout rounds made batches) {member : Member k}
    (hmember : member ∈ world.members) (id : MessageId) :
    batches.countP (fun batch => batch.isFrom member.node.id && batch.carries id) ≤
      1 + rounds := by
  have hwithin := (h.thrifty member hmember).within id
  rw [h.keeping member hmember, Batch.handed, List.countP_filter] at hwithin
  have hsame : batches.countP (fun batch => batch.isFrom member.node.id && batch.carries id) =
      batches.countP (fun batch => batch.carries id && batch.isFrom member.node.id) :=
    List.countP_congr fun batch _ => by rw [Bool.and_comm]
  rw [hsame]
  split at hwithin
  · omega
  · omega

/-- All batches together are no more than there are pairs of nodes and messages, times the budget of
a pair. -/
theorem Traffic.length_batches_le (h : world.Traffic names fanout rounds made batches) :
    batches.length ≤ (1 + rounds) * (names.length * made.length) := by
  have hcover := length_le_of_cover
    (fun (key : NodeId × MessageId) (batch : Batch) => batch.isFrom key.1 && batch.carries key.2)
    (1 + rounds) (names ×ˢ made.map (·.id)) batches ?_ ?_
  · rw [List.length_product, List.length_map] at hcover
    exact hcover
  · intro batch hbatch
    obtain ⟨name, hname, message, hmessage, hpush⟩ := h.pushes batch hbatch
    refine ⟨(name, message.id), List.mem_product.mpr ⟨hname, List.mem_map_of_mem hmessage⟩, ?_⟩
    rw [Bool.and_eq_true]
    exact ⟨hpush.isFrom_iff.mpr rfl, hpush.carries_iff.mpr rfl⟩
  · rintro ⟨name, id⟩ hkey
    obtain ⟨hname, -⟩ := List.mem_product.mp hkey
    rw [← h.named, nodes, List.map_map] at hname
    obtain ⟨member, hmember, rfl⟩ := List.mem_map.mp hname
    exact h.countP_le hmember id

/-- There are as many sends as there are batches at least, and at most that many times the fanout. -/
theorem Traffic.sent_bounds (h : world.Traffic names fanout rounds made batches) :
    batches.length ≤ world.network.stats.sent ∧
      world.network.stats.sent ≤ fanout * batches.length := by
  rw [h.sent, h.posted]
  refine Batch.length_flatten fun batch hbatch => ?_
  obtain ⟨name, -, message, -, hpush⟩ := h.pushes batch hbatch
  exact ⟨hpush.ne_nil, hpush.length_le⟩

/-- So the number of sends is bounded by the numbers of nodes and messages. -/
theorem Traffic.sent_le (h : world.Traffic names fanout rounds made batches) :
    world.network.stats.sent ≤ fanout * (1 + rounds) * names.length * made.length := by
  have hupper := h.sent_bounds.2
  have hbatches := Nat.mul_le_mul_left fanout h.length_batches_le
  have hassoc : fanout * ((1 + rounds) * (names.length * made.length)) =
      fanout * (1 + rounds) * names.length * made.length := by
    rw [← Nat.mul_assoc, ← Nat.mul_assoc]
  omega

variable [Random.Source σ]

/-- When something is done to a node, every node keeps within its budget. -/
theorem Traffic.thrifty_deed (h : world.Traffic names fanout rounds made batches)
    (hnames : names.Nodup) {index : Nat} {member : Member k} {deed : Deed}
    (hat : world.members[index]? = some member)
    (hfresh : ∀ message ∈ (world.lifeOf member).originated? world.wall deed,
      message.id ∉ member.node.seen)
    (hpush : ∀ batch ∈ (world.lifeOf member).batches world.wall deed,
      ∃ message fanout, batch.IsPush member.node.id message fanout)
    {other : Member k}
    (hother : other ∈ world.members.set index
      { member with node := ((world.lifeOf member).step world.wall deed).1.node }) :
    other.node.Thrifty ((batches ++ (world.lifeOf member).batches world.wall deed).filter
      (Batch.isFrom other.node.id)) := by
  have hid : ((world.lifeOf member).step world.wall deed).1.node.id = member.node.id :=
    (Life.course_step (world.lifeOf member) world.wall deed).keeps.1
  rw [List.filter_append]
  rcases mem_members_set hother with rfl | ⟨place, hplace, hbefore⟩
  · rw [hid, Batch.filter_isFrom_self hpush]
    exact Life.thrifty_step (world.lifeOf member)
      (h.thrifty member (List.mem_of_getElem? hat)) world.wall deed hfresh
  · -- Another node has another name, so none of the batches are from it.
    have hne : member.node.id ≠ other.node.id := by
      intro heq
      have hfirst : (world.nodes.map (·.id))[index]? = some member.node.id := by
        rw [nodes, List.getElem?_map, List.getElem?_map, hat]
        rfl
      have hsecond : (world.nodes.map (·.id))[place]? = some member.node.id := by
        rw [nodes, List.getElem?_map, List.getElem?_map, hbefore, heq]
        rfl
      rw [h.named] at hfirst hsecond
      obtain ⟨hlt, -⟩ := List.getElem?_eq_some_iff.mp hfirst
      exact hplace ((List.getElem?_inj hlt hnames).mp (hfirst.trans hsecond.symm)).symm
    rw [Batch.filter_isFrom_of_ne hne hpush, List.append_nil]
    exact h.thrifty other (List.mem_of_getElem? hbefore)

/-- Every change keeps to the traffic that the nodes are entitled to. -/
theorem Traffic.change (h : world.Traffic names fanout rounds made batches) (hnames : names.Nodup)
    (hdistinct : ((made ++ more).map (·.id)).Nodup) (hchange : world.Change more others after) :
    after.Traffic names fanout rounds (made ++ more) (batches ++ others) := by
  have hknowledge := h.knowledge.change hdistinct hchange
  cases hchange with
  | still hmembers hbooks =>
    rw [List.append_nil] at hknowledge ⊢
    rw [List.append_nil]
    exact h.still hmembers hbooks hknowledge
  | unheard _ _ hmembers hbooks =>
    rw [List.append_nil] at hknowledge ⊢
    rw [List.append_nil]
    exact h.still hmembers hbooks hknowledge
  | @deed _ index member deed hat hoffered hmembers hbooks =>
    have hmember := List.mem_of_getElem? hat
    have hnodeAt : world.nodes[index]? = some member.node := by
      rw [nodes, List.getElem?_map, hat]
      rfl
    have hnodes := nodes_set hmembers
    obtain ⟨-, hrounds, -⟩ := (Life.course_step (world.lifeOf member) world.wall deed).keeps
    have hnew : ∀ batch ∈ (world.lifeOf member).batches world.wall deed,
        ∃ message ∈ made ++ ((world.lifeOf member).originated? world.wall deed).toList,
          batch.IsPush member.node.id message fanout := by
      intro batch hbatch
      rw [← h.rules member]
      exact h.knowledge.exists_isPush hmember hoffered hbatch
    refine ⟨hknowledge, ?_, fun other => (hbooks.rules other).1.trans (h.rules other), ?_, ?_, ?_,
      ?_, ?_, ?_⟩
    · rw [names_set hat hmembers]
      exact h.named
    · intro other hother
      rw [hmembers] at hother
      rcases mem_members_set hother with rfl | ⟨place, -, hplace⟩
      · exact hrounds.trans (h.keeping member hmember)
      · exact h.keeping other (List.mem_of_getElem? hplace)
    · intro other hother
      rw [hmembers] at hother
      refine h.thrifty_deed hnames hat (fun message horiginated => ?_) (fun batch hbatch => ?_) hother
      · exact h.knowledge.fresh hdistinct hmember (Option.mem_toList.mpr horiginated)
      · obtain ⟨message, -, hpush⟩ := hnew batch hbatch
        exact ⟨message, fanout, hpush⟩
    · intro batch hbatch
      rcases List.mem_append.mp hbatch with hold | hmore
      · obtain ⟨name, hname, message, hmessage, hpush⟩ := h.pushes batch hold
        exact ⟨name, hname, message, List.mem_append_left _ hmessage, hpush⟩
      · obtain ⟨message, hmessage, hpush⟩ := hnew batch hmore
        refine ⟨member.node.id, ?_, message, hmessage, hpush⟩
        rw [← h.named]
        exact List.mem_map_of_mem (List.mem_of_getElem? hnodeAt)
    · rw [hbooks.posted, h.posted, List.flatten_append, Life.flatten_batches]
    · rw [hbooks.sent, hbooks.posted, List.length_append, h.sent]
    · have htotal := Simulation.total_set (·.stats.forwards) hnodeAt
        ((world.lifeOf member).step world.wall deed).1.node
      have hforwards := Life.forwards_step (world.lifeOf member) world.wall deed
      have hbefore := h.forwards
      have hlife : (world.lifeOf member).node.stats.forwards = member.node.stats.forwards := rfl
      rw [hnodes, List.length_append]
      dsimp only at htotal ⊢
      omega

/-- So does every passage. -/
theorem Traffic.passage (h : world.Traffic names fanout rounds made batches) (hnames : names.Nodup)
    (hdistinct : ((made ++ more).map (·.id)).Nodup) (hpassage : world.Passage more others after) :
    after.Traffic names fanout rounds (made ++ more) (batches ++ others) :=
  hpassage.preserves
    (fun made batches world => world.Traffic names fanout rounds made batches) batches
    (fun htraffic hdistinct hchange => htraffic.change hnames hdistinct hchange) hdistinct h

end World

end Epidemic
