import Epidemic.Agenda
import Epidemic.Binary64
import Epidemic.Command.Argument
import Epidemic.Command.Run
import Epidemic.Convergence.Report
import Epidemic.Convergence.Wait
import Epidemic.Decimal.Digits
import Epidemic.Decimal.Layout
import Epidemic.Decimal.Literal
import Epidemic.Decimal.Shortest
import Epidemic.Duration
import Epidemic.Fault
import Epidemic.Identifier
import Epidemic.Json.Document
import Epidemic.Json.Record
import Epidemic.Json.Token
import Epidemic.Json.Value
import Epidemic.Json.Writer
import Epidemic.Main
import Epidemic.Message
import Epidemic.Network
import Epidemic.Node
import Epidemic.Ordered
import Epidemic.Protocol
import Epidemic.Random.Chance
import Epidemic.Random.Cipher
import Epidemic.Random.Script
import Epidemic.Random.Shuffle
import Epidemic.Random.Source
import Epidemic.Simulation.Basic
import Epidemic.Simulation.Config
import Epidemic.Topology.Components
import Epidemic.Topology.Link
import Epidemic.Topology.Random
import Epidemic.Width
import Epidemic.World.Basic
import Epidemic.World.Settle
import Epidemic.World.Time
import Epidemic.Proofs.Node.Age
import Epidemic.Proofs.Node.Memory
import Epidemic.Proofs.World.Conservation
import Epidemic.Proofs.Convergence.Agreement
import Epidemic.Proofs.Node.Spread
import Epidemic.Proofs.Simulation.Construction
import Epidemic.Proofs.Simulation.Flooding
import Epidemic.Proofs.Node.Batches
import Epidemic.Proofs.Node.Budget
import Epidemic.Proofs.World.Books
import Epidemic.Proofs.World.Passage
import Epidemic.Proofs.Simulation.Occurrence
import Epidemic.Proofs.Json.Ascending
import Epidemic.Proofs.Node.Knowledge
import Epidemic.Proofs.World.Knowledge
import Epidemic.Proofs.Simulation.Union
import Epidemic.Proofs.Simulation.Traffic
import Epidemic.Proofs.Simulation.Counters
import Epidemic.Proofs.World.Punctual
import Epidemic.Proofs.World.Arrivals
import Epidemic.Proofs.World.Front
import Epidemic.Proofs.World.Wave
import Epidemic.Proofs.Simulation.Distance
import Epidemic.Proofs.Topology.Stitching
import Epidemic.Proofs.Simulation.Confinement
import Epidemic.Proofs.Simulation.Shutdown
import Epidemic.Proofs.World.Journal
import Epidemic.Proofs.World.Timetable
import Epidemic.Proofs.World.Orderly
import Epidemic.Proofs.World.Deliveries
import Epidemic.Proofs.Simulation.Peering
import Epidemic.Proofs.Convergence.Waiting
import Epidemic.Proofs.Simulation.SoleWriter
import Epidemic.Proofs.World.Holders
import Epidemic.Proofs.World.Registry
import Epidemic.Proofs.World.Progress
import Epidemic.Proofs.World.LateBinding
import Epidemic.Proofs.Node.Fanout
import Epidemic.Proofs.Node.Schedule
import Epidemic.Proofs.Node.Nesting
import Epidemic.Proofs.Simulation.Isolation
import Epidemic.Proofs.Simulation.Routing
import Epidemic.Proofs.Node.Listing
import Epidemic.Proofs.Convergence.Plurality
import Epidemic.Proofs.Simulation.Seeds
import Epidemic.Proofs.Random.Choices
import Epidemic.Proofs.Topology.Search
import Epidemic.Proofs.World.Standing
import Epidemic.Proofs.Simulation.Failure
import Epidemic.Proofs.Binary64
import Epidemic.Proofs.World.Rolling
import Epidemic.Proofs.Topology.Degree
import Epidemic.Proofs.Message
import Epidemic.Proofs.Command.Settings
import Epidemic.Proofs.Simulation.Ticking
