/-
Module: Netlist.Log.Event
Layer: Log
Purpose: What is worth noting while a circuit is compiled, loaded and run. An event is a cause with its
  particulars; its level, its message and the written form of its fields follow from the cause.
Imports: Netlist.Simulation.Vector, Netlist.Text.Quoted
Main exports: Level, Level.severity, Event, Event.level, Event.message, Event.fields, Event.select
-/
import Netlist.Simulation.Vector
import Netlist.Text.Quoted

namespace Netlist

/-- How serious an event is. -/
inductive Level where
  | error
  | warn
  | info
  | debug
  | trace
deriving Repr, Inhabited, DecidableEq

namespace Level

/-- The rank of a level; the most serious level has rank zero. -/
def rank : Level → Nat
  | .error => 0
  | .warn => 1
  | .info => 2
  | .debug => 3
  | .trace => 4

/-- The name of a level. -/
def name : Level → String
  | .error => "ERROR"
  | .warn => "WARN"
  | .info => "INFO"
  | .debug => "DEBUG"
  | .trace => "TRACE"

end Level

/-- Something worth noting. -/
inductive Event where
  /-- Every net of a description has exactly one driver. -/
  | driversChecked (nets : Nat)
  /-- A description has been compiled. -/
  | compiled (netlist : String) (nets gates registers roms rams : Nat)
  /-- An image has fewer words than the blocks have addresses. -/
  | imageShort (expected found : Nat)
  /-- A block has been filled from an image. -/
  | blockFilled (block : String) (words : Nat)
  /-- An image has more words than the blocks have addresses. -/
  | imageLong (capacity : Nat)
  /-- An image has been loaded. -/
  | imageLoaded (blocks words : Nat)
  /-- An image has not been read, because there are no blocks. -/
  | imageSkipped
  /-- Words given to a block have been ignored. -/
  | surplusIgnored (block : String) (surplus : Nat)
  /-- A circuit with ROM blocks is going to run without an image. -/
  | imageMissing (netlist : String) (blocks : Nat)
  /-- A step settles the gates. -/
  | settling (step : Nat)
  /-- A step commits its updates. -/
  | committing (step : Nat)
  /-- A step is complete. -/
  | stepComplete (step : Nat)
  /-- The inputs and outputs of a step. -/
  | stepTraced (step : Nat) (inputs : InputVector) (outputs : OutputVector)
  /-- A circuit has been put back to power-on. -/
  | reset (netlist : String)
  /-- The file of a description has been read. -/
  | descriptionRead (path netlist : String)
  /-- The file of an image has been read. -/
  | imageRead (path : String) (words : Nat)
  /-- The file of an image has been applied. -/
  | imageApplied (path : String) (blocks : Nat) (loaded : Bool)
  /-- A value typed at a prompt does not fit its pin. -/
  | valueTooWide (pin : String) (value : Word) (width : Nat)
  /-- What was typed at a prompt is not a hexadecimal value. -/
  | notHexadecimal (pin token : String)
  /-- A session at the console is over. -/
  | finished (steps : Nat)
deriving Repr, Inhabited, DecidableEq

/-- An input vector as log lines show it. -/
def inputText (inputs : InputVector) : String :=
  let entries := inputs.entries.map (fun e => Text.quote e.1 ++ ": " ++ toString e.2.toNat)
  "InputVector \x7b values: \x7b" ++ String.intercalate ", " entries ++ "\x7d \x7d"

namespace Event

/-- The level of an event. -/
def level : Event → Level
  | .imageShort .. | .imageLong .. | .surplusIgnored .. | .imageMissing .. => .warn
  | .valueTooWide .. | .notHexadecimal .. => .warn
  | .compiled .. | .imageLoaded .. | .descriptionRead .. | .imageRead .. => .info
  | .imageApplied .. | .finished .. => .info
  | .driversChecked .. | .blockFilled .. | .imageSkipped | .stepTraced .. | .reset .. => .debug
  | .settling .. | .committing .. | .stepComplete .. => .trace

/-- The message of an event; the phases of a step have none. -/
def message : Event → String
  | .driversChecked .. => "every net has exactly one driver"
  | .compiled .. => "compiled netlist"
  | .imageShort .. => "ROM image is shorter than the ROM blocks; missing words read the default"
  | .blockFilled .. => "filled ROM block"
  | .imageLong .. => "ROM image is longer than the ROM blocks; surplus words ignored"
  | .imageLoaded .. => "loaded ROM image"
  | .imageSkipped => "netlist has no ROM blocks; ROM image not read"
  | .surplusIgnored .. => "surplus ROM words ignored"
  | .imageMissing .. =>
    "netlist has ROM blocks but no ROM image is loaded; ROM reads return the default word"
  | .settling .. => ""
  | .committing .. => ""
  | .stepComplete .. => "step complete"
  | .stepTraced .. => "step"
  | .reset .. => "reset"
  | .descriptionRead .. => "read netlist description"
  | .imageRead .. => "read ROM image"
  | .imageApplied .. => "applied ROM image"
  | .valueTooWide .. => "value too wide for pin"
  | .notHexadecimal .. => "not a hexadecimal value"
  | .finished .. => "simulation finished"

/-- The fields of an event by name, in their written form. -/
def fields : Event → List (String × String)
  | .driversChecked nets => [("nets", toString nets)]
  | .compiled netlist nets gates registers roms rams =>
    [("netlist", netlist), ("nets", toString nets), ("gates", toString gates),
     ("registers", toString registers), ("roms", toString roms), ("rams", toString rams)]
  | .imageShort expected found => [("expected", toString expected), ("found", toString found)]
  | .blockFilled block words => [("block", block), ("words", toString words)]
  | .imageLong capacity => [("capacity", toString capacity)]
  | .imageLoaded blocks words => [("blocks", toString blocks), ("words", toString words)]
  | .imageSkipped => []
  | .surplusIgnored block surplus => [("block", block), ("surplus", toString surplus)]
  | .imageMissing netlist blocks => [("netlist", netlist), ("blocks", toString blocks)]
  | .settling step => [("phase", "Settling"), ("step", toString step)]
  | .committing step => [("phase", "Committing"), ("step", toString step)]
  | .stepComplete step => [("step", toString step)]
  | .stepTraced step inputs outputs =>
    [("step", toString step), ("inputs", inputText inputs), ("outputs", outputs.text)]
  | .reset netlist => [("netlist", netlist)]
  | .descriptionRead path netlist => [("path", path), ("netlist", netlist)]
  | .imageRead path words => [("path", path), ("words", toString words)]
  | .imageApplied path blocks loaded =>
    [("path", path), ("blocks", toString blocks), ("loaded", if loaded then "true" else "false")]
  | .valueTooWide pin value width =>
    [("pin", pin), ("value", toString value.toNat), ("width", toString width)]
  | .notHexadecimal pin token => [("pin", pin), ("token", token)]
  | .finished steps => [("steps", toString steps)]

/-- The events that are at least as serious as a level, in order. -/
def select (least : Level) (events : List Event) : List Event :=
  events.filter (fun e => e.level.rank ≤ least.rank)

end Event

end Netlist
