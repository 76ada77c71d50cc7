import Epidemic.Node

/-!
# Agreement on a key

A report says how far the nodes agree on the value of a key: how many of them hold the value that
most nodes hold, and how many have no value at all. Of equally common values it names the one whose
first holder comes first.
-/

namespace Epidemic.Convergence

/-- Values with the number of their holders, in the order in which they were first met. -/
abbrev Tally := List (Json.Value × Nat)

/-- Counts one more holder of a value. -/
def count (value : Json.Value) : Tally → Tally
  | [] => [(value, 1)]
  | (known, holders) :: rest =>
    if known.equals value then (known, holders + 1) :: rest
    else (known, holders) :: count value rest

/-- The holders of a list of values. -/
def tally (values : List Json.Value) : Tally :=
  values.foldl (fun tally value => count value tally) []

/-- The first of the most common values. -/
def mostCommon (tally : Tally) : Option (Json.Value × Nat) :=
  tally.foldl
    (fun best entry =>
      match best with
      | none => some entry
      | some top => if top.2 < entry.2 then some entry else some top)
    none

/-- How far nodes agree on a key. -/
structure Report where
  /-- The key. -/
  key : String
  /-- The number of nodes. -/
  totalNodes : Nat
  /-- The number of nodes that hold the most common value. -/
  agreeingNodes : Nat
  /-- The number of nodes without a value. -/
  missingNodes : Nat
  /-- The most common value, if there is a value. -/
  value : Option Json.Value

namespace Report

/-- The agreement of nodes on a key. -/
def ofNodes (nodes : List Node) (key : String) : Report :=
  let values := nodes.filterMap (·.get? key)
  let best := mostCommon (tally values)
  { key
    totalNodes := nodes.length
    agreeingNodes := (best.map (·.2)).getD 0
    missingNodes := nodes.length - values.length
    value := best.map (·.1) }

/-- Whether there are nodes and all of them hold one value. -/
def isConverged (report : Report) : Bool :=
  0 < report.totalNodes && report.agreeingNodes == report.totalNodes

/-- The report as a record. -/
def toJson (report : Report) : Json.Value :=
  .object [("key", .string report.key), ("total_nodes", .int report.totalNodes),
    ("agreeing_nodes", .int report.agreeingNodes), ("missing_nodes", .int report.missingNodes),
    ("value", report.value.getD .null)]

end Report

end Epidemic.Convergence
