import Breadboard.Word
import Breadboard.Fault
import Breadboard.Pin
import Breadboard.Board
import Breadboard.Chip
import Breadboard.Chip.Standard
import Breadboard.Chip.Program
import Breadboard.Catalog
import Breadboard.Event
import Breadboard.Notice
import Breadboard.Script
import Breadboard.Trace
import Breadboard.Cell
import Breadboard.Circuit
import Breadboard.Circuit.Plan
import Breadboard.Network
import Breadboard.Network.Fanout
import Breadboard.Network.Rules
import Breadboard.Part
import Breadboard.Json
import Breadboard.Json.Reader
import Breadboard.Setup
import Breadboard.Bench
import Breadboard.Bench.Operation
import Breadboard.Bench.Assembly
import Breadboard.Text.Unseen
import Breadboard.Text.Quoted
import Breadboard.Dump
import Breadboard.Bench.Command
import Breadboard.Proofs.Word
import Breadboard.Proofs.Board
import Breadboard.Proofs.Board.Narrowing
import Breadboard.Proofs.Chip
import Breadboard.Proofs.Catalog
import Breadboard.Proofs.Text.Order
import Breadboard.Proofs.Circuit.Step
import Breadboard.Proofs.Circuit.Wiring
import Breadboard.Proofs.Circuit.Acceptance
import Breadboard.Proofs.Circuit.Footprint
import Breadboard.Proofs.Circuit.Range
import Breadboard.Proofs.Circuit.Rollback
import Breadboard.Proofs.Circuit.Outcome
import Breadboard.Proofs.Circuit.Netlist
import Breadboard.Proofs.Circuit.Relocation
import Breadboard.Proofs.Circuit.Order
import Breadboard.Proofs.Circuit.Settling
import Breadboard.Proofs.Circuit.Aliasing
import Breadboard.Proofs.Circuit.Faultless
import Breadboard.Proofs.Circuit.Routing
import Breadboard.Proofs.Circuit.Formula
import Breadboard.Proofs.Circuit.Universality
import Breadboard.Proofs.Json.Grammar
import Breadboard.Proofs.Json.Reading
import Breadboard.Proofs.Setup.RoundTrip
import Breadboard.Proofs.Setup.Schema
import Breadboard.Proofs.Network.Induction
import Breadboard.Proofs.Network.Machine
import Breadboard.Proofs.Network.Passive
import Breadboard.Proofs.Network.Paths
import Breadboard.Proofs.Network.Visits
import Breadboard.Proofs.Network.Lasting
import Breadboard.Proofs.Network.Delivery
import Breadboard.Proofs.Network.Registrations
import Breadboard.Proofs.Bench.Moves
import Breadboard.Proofs.Bench.Commands
import Breadboard.Proofs.Bench.Marks
import Breadboard.Proofs.Bench.Parts
import Breadboard.Proofs.Bench.Isolation
import Breadboard.Proofs.Bench.Range
import Breadboard.Proofs.Bench.Attendance
import Breadboard.Proofs.Bench.Assembly
import Breadboard.Proofs.Bench.Writing
