import Epidemic.Decimal.Layout

/-!
# Faults

What a simulation can refuse. Loss and repeated delivery are no faults; they are counted.
-/

namespace Epidemic

/-- Why an operation was refused. -/
inductive Fault where
  /-- A loss rate that is no probability. -/
  | dropRate (rate : Binary64)
  /-- A simulation without nodes. -/
  | noNodes
  /-- A selection of no peers at all. -/
  | noFanout
  /-- Rumor rounds without time between them. -/
  | noRumorInterval
  /-- A node that is not part of the simulation. -/
  | unknownNode (id : String)
  /-- A second endpoint under a registered id. -/
  | duplicateNode (id : String)
  /-- A broadcast to peers that cannot be reached because the network is gone. -/
  | networkUnavailable
  deriving DecidableEq

namespace Fault

/-- Rates are named with all their digits and never with an exponent; of two equally short
decimals the greater one is taken. -/
def rateLayout : Decimal.Layout where
  tie := .up
  positional := none
  keepsFraction := false
  infinityText := "inf".toList
  signsInfinity := true
  nanText := "NaN".toList

/-- The reason why a configuration is refused, where there is one. -/
def configurationReason : Fault → Option String
  | .noNodes => some "node_count must be positive"
  | .noFanout => some "fanout must be positive"
  | .noRumorInterval => some "rumor_interval_ms must be positive when rumor rounds are enabled"
  | _ => none

/-- The wording of a fault. -/
def message (fault : Fault) : String :=
  match fault with
  | .dropRate rate =>
    "Drop rate must be within [0, 1], got " ++ String.ofList (rateLayout.write rate)
  | .unknownNode id => "Unknown node: " ++ id
  | .duplicateNode id => "Node already registered: " ++ id
  | .networkUnavailable => "Network is no longer available"
  | fault => "Invalid configuration: " ++ (configurationReason fault).getD ""

end Fault

end Epidemic
