import Netlist.Circuit.Basic
import Netlist.Circuit.Compile
import Netlist.Circuit.Element
import Netlist.Circuit.Gate
import Netlist.Circuit.Schedule
import Netlist.CommandLine.Arguments
import Netlist.CommandLine.Program
import Netlist.Config
import Netlist.Console.Dialogue
import Netlist.Console.Prompt
import Netlist.Console.Session
import Netlist.Description.Basic
import Netlist.Description.Builder
import Netlist.Description.Json
import Netlist.Error
import Netlist.Files
import Netlist.Json.Basic
import Netlist.Json.Number
import Netlist.Json.Parser
import Netlist.Json.Printer
import Netlist.Json.Record
import Netlist.Json.Token
import Netlist.Log.Event
import Netlist.Log.Journal
import Netlist.Main
import Netlist.NetId
import Netlist.Numeric.Binary64
import Netlist.Numeric.Nearest
import Netlist.Proofs.Assembly
import Netlist.Proofs.Calls
import Netlist.Proofs.Declaration
import Netlist.Proofs.Denotation
import Netlist.Proofs.Drivers
import Netlist.Proofs.Elaboration
import Netlist.Proofs.Fits
import Netlist.Proofs.Guarded.Access
import Netlist.Proofs.Guarded.Compile
import Netlist.Proofs.Guarded.Equations
import Netlist.Proofs.Guarded.Schedule
import Netlist.Proofs.Guarded.Simulation
import Netlist.Proofs.Meaning
import Netlist.Proofs.NetTable
import Netlist.Proofs.Ram
import Netlist.Proofs.Representation
import Netlist.Proofs.Schedule.Cycle
import Netlist.Proofs.Schedule.Release
import Netlist.Proofs.Sequence
import Netlist.Proofs.Settle
import Netlist.Proofs.WellFormed
import Netlist.Proofs.Word
import Netlist.Ram
import Netlist.Rom.Image
import Netlist.Rom.Store
import Netlist.Simulation.Simulator
import Netlist.Simulation.State
import Netlist.Simulation.Statistics
import Netlist.Simulation.Vector
import Netlist.SortedMap
import Netlist.Text.Blank
import Netlist.Text.Concealed
import Netlist.Text.Hex
import Netlist.Text.Quoted
import Netlist.Text.Utf8
import Netlist.Word
import Netlist.Proofs.Json.Lexing
import Netlist.Proofs.Json.RoundTrip
import Netlist.Proofs.Json.Description
import Netlist.Proofs.Text.ByteOrder
import Netlist.Proofs.Rom.Filling
import Netlist.Proofs.Rom.Layout
import Netlist.Proofs.Listing
import Netlist.Proofs.Reordered
import Netlist.Proofs.Agreement
import Netlist.Proofs.Snapshot
import Netlist.Proofs.Rom.Agreement
import Netlist.Proofs.OrderIndependence
import Netlist.Proofs.Cone
import Netlist.Proofs.RamHistory
import Netlist.Proofs.Text.Words
import Netlist.Proofs.Rom.Scanning
import Netlist.Proofs.Rom.Bounded
import Netlist.Proofs.Text.Utf8
import Netlist.Proofs.Console.Asking
import Netlist.Proofs.Console.Dialogue
import Netlist.Proofs.Console.Session
import Netlist.Proofs.InPlace
import Netlist.Proofs.Rom.History
import Netlist.Proofs.Refusal
import Netlist.Proofs.PowerOn
import Netlist.Proofs.Fault.Equation
import Netlist.Proofs.Fault.Description
import Netlist.Proofs.FixedPoint
import Netlist.Proofs.Schedule.Loops
import Netlist.Proofs.Commit
import Netlist.Proofs.Statistics
import Netlist.Proofs.Rom.Tokens
import Netlist.Proofs.Text.Hex
import Netlist.Proofs.Rom.Written
import Netlist.Proofs.ConstantWidth
import Netlist.Proofs.Schedule.Levels
import Netlist.Proofs.Spelling
import Netlist.Proofs.Splitting
import Netlist.Proofs.Builder
