import Epidemic.Random.Shuffle
import Epidemic.Topology.Components

/-!
# Random connected topologies

Every node draws links to some others: about a third of them in a small population, about as many
as the population has binary digits in a large one. If the nodes fall into several components after
this, each further component is tied to the first one by one more random link.
-/

namespace Epidemic.Topology

open Epidemic.Random (Chooser shuffle)
open Epidemic.Width (minus? times? ceilDiv? clamp? leadingZeros)

variable {σ : Type} [Chooser σ]

/-- Populations of more nodes than this are large. -/
def largePopulation : Nat := 64

/-- How many links a node of a population draws: the binary digits of the greatest node number in a
large population, otherwise three tenths of the population, rounded up; at least one, and no more
than there are others. -/
def targetDegree (nodeCount : Nat) : Nat :=
  if nodeCount < 2 then 0
  else
    let degree :=
      if largePopulation < nodeCount then (nodeCount - 1).log2 + 1 else (nodeCount * 3 + 9) / 10
    min (max degree 1) (nodeCount - 1)

/-- How many links a node of a population draws before it is seen to that there are enough others. -/
def wantedDegree? (nodeCount : Nat) : Option Nat :=
  if largePopulation < nodeCount then do
    let greatest ← minus? nodeCount 1
    minus? 64 (leadingZeros greatest)
  else do
    let tenths ← times? nodeCount 3
    ceilDiv? tenths 10

/-- How many links a node of a population draws, all that is needed for it being asked for with a
check. -/
def targetDegree? (nodeCount : Nat) : Option Nat :=
  if nodeCount < 2 then some 0
  else do
    let degree ← wantedDegree? nodeCount
    let others ← minus? nodeCount 1
    clamp? degree 1 others

/-- All nodes but one. -/
def others (nodeCount node : Nat) : List Nat :=
  (List.range nodeCount).filter (· != node)

/-- Adds links between a node and several others. -/
def linkTo (links : List Link) (node : Nat) (targets : List Nat) : List Link :=
  targets.foldl (fun links target => Ordered.insert (Link.between node target) links) links

/-- Lets each of the listed nodes draw its links. -/
def drawLinks (nodeCount : Nat) : List Nat → List Link → σ → List Link × σ
  | [], links, state => (links, state)
  | node :: rest, links, state =>
    let (order, state) := shuffle (others nodeCount node) state
    drawLinks nodeCount rest (linkTo links node (order.take (targetDegree nodeCount))) state

/-- One of the items of a list that begins with `first`. -/
def pickFrom {α : Type} (first : α) (rest : List α) (state : σ) : α × σ :=
  let (choice, after) := Chooser.pick rest.length state
  ((first :: rest)[choice], after)

/-- Ties each of the groups to the group that begins with `first`. -/
def stitch (first : Nat) (rest : List Nat) : List (List Nat) → List Link → σ → List Link × σ
  | [], links, state => (links, state)
  | [] :: groups, links, state => stitch first rest groups links state
  | (head :: tail) :: groups, links, state =>
    let (anchor, state) := pickFrom first rest state
    let (member, state) := pickFrom head tail state
    stitch first rest groups (Ordered.insert (Link.between anchor member) links) state

/-- The links of a random topology, in ascending order, by which every node can be reached from
every other. -/
def random (nodeCount : Nat) (state : σ) : List Link × σ :=
  let (links, state) := drawLinks nodeCount (List.range nodeCount) [] state
  match components nodeCount links with
  | (first :: rest) :: groups => stitch first rest groups links state
  | _ => (links, state)

/-- One of the items of a list, unless it is empty. -/
def pick? {α : Type} (items : List α) (state : σ) : Option (α × σ) :=
  match items with
  | [] => none
  | first :: rest => some (pickFrom first rest state)

/-- Ties each of the groups to the main one, unless one of them is empty. -/
def stitch? (main : List Nat) : List (List Nat) → List Link → σ → Option (List Link × σ)
  | [], links, state => some (links, state)
  | group :: groups, links, state => do
    let (anchor, state) ← pick? main state
    let (member, state) ← pick? group state
    stitch? main groups (Ordered.insert (Link.between anchor member) links) state

/-- The links of a random topology, the components being searched for, unless this search asks for a
node that there is not, or an end is to be picked from an empty component. -/
def random? (nodeCount : Nat) (state : σ) : Option (List Link × σ) := do
  let (links, state) := drawLinks nodeCount (List.range nodeCount) [] state
  match ← searched? nodeCount links with
  | [] => some (links, state)
  | main :: groups => stitch? main groups links state

end Epidemic.Topology
