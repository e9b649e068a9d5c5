/-
Module: Netlist.Simulation.Vector
Layer: Simulation
Purpose: The values of pins in one step. An input vector gives values to pins by name and is listed in
  the order of the names; an output vector lists the output pins in order of declaration.
Imports: Netlist.SortedMap, Netlist.Word
Main exports: InputVector, OutputVector, OutputVector.get?, OutputVector.text
-/
import Netlist.SortedMap
import Netlist.Word

namespace Netlist

/-- Values for input pins, by pin name. A pin that is set twice keeps the last value. -/
abbrev InputVector := SortedMap String Word

/-- The values of the output pins. -/
structure OutputVector where
  /-- Each pin with its value, in order of declaration. -/
  values : List (String × Word)
deriving Repr, Inhabited, DecidableEq

namespace OutputVector

/-- The value of an output pin. -/
def get? (v : OutputVector) (pin : String) : Option Word :=
  (v.values.find? (fun e => e.1 == pin)).map (·.2)

/-- The printed form: `name=hex, ` for each pin. -/
def text (v : OutputVector) : String :=
  String.join (v.values.map (fun e => e.1 ++ "=" ++ e.2.hex ++ ", "))

end OutputVector

end Netlist
