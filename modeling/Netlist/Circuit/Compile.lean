/-
Module: Netlist.Circuit.Compile
Layer: Circuit
Purpose: Compiling a description. The nets are declared, the pins attached and the equations checked one
  by one; then every net has to have exactly one driver and the gates have to have an order. The first
  fault found is the result.
Imports: Netlist.Circuit.Element, Netlist.Circuit.Schedule, Netlist.Config
Main exports: declareNets, attachPins, Part.gatesFrom, checkDrivers, Description.compile
-/
import Netlist.Circuit.Element
import Netlist.Circuit.Schedule
import Netlist.Config

namespace Netlist

/-!
### Nets and pins
-/

/-- Declares one more net. -/
def declareNet (limit : Nat) (nets : Array NetInfo) (decl : NetDecl) :
    Except NetlistError (Array NetInfo) :=
  let width := decl.width.toNat
  if width = 0 ∨ limit < width then .error (.invalidWidth decl.name width limit)
  else if (findNet? nets decl.name).isSome then .error (.duplicateNet decl.name)
  else .ok (nets.push ⟨decl.name, width⟩)

/-- Declares nets in order, so that a net's position is its place in the list. -/
def declareNets (limit : Nat) (decls : List NetDecl) : Except NetlistError (Array NetInfo) :=
  decls.foldlM (declareNet limit) #[]

/-- Attaches one more pin. -/
def attachPin (scope : Scope) (pins : List Pin) (name : String) : Except NetlistError (List Pin) :=
  if pins.any (fun pin => pin.name == name) then .error (.duplicatePin name)
  else do
    let net ← scope.find name
    .ok (pins ++ [⟨name, net, scope.width net⟩])

/-- Attaches pins to the nets of their names, in order. -/
def attachPins (scope : Scope) (names : List String) : Except NetlistError (List Pin) :=
  names.foldlM (attachPin scope) []

/-!
### Parts
-/

namespace Part

/-- The gates of a list of parts, when the next ROM and RAM blocks have the given numbers. -/
def gatesFrom (roms rams : Nat) : List Part → List Gate
  | [] => []
  | part :: rest =>
    match part.element with
    | .logic kind inputs => ⟨kind, inputs, part.target, part.width⟩ :: gatesFrom roms rams rest
    | .register .. => gatesFrom roms rams rest
    | .rom _ _ addr =>
      ⟨.romRead roms, [addr], part.target, part.width⟩ :: gatesFrom (roms + 1) rams rest
    | .ram _ _ readAddr .. =>
      ⟨.ramRead rams, [readAddr], part.target, part.width⟩ :: gatesFrom roms (rams + 1) rest

/-- The register of a part. -/
def register? (part : Part) : Option Register :=
  match part.element with
  | .register next init => some ⟨part.target, next, part.width, init⟩
  | _ => none

/-- The ROM block of a part. -/
def romBlock? (part : Part) : Option RomBlock :=
  match part.element with
  | .rom addrWidth wordWidth _ => some ⟨part.name, addrWidth, wordWidth⟩
  | _ => none

/-- The RAM block of a part. -/
def ramBlock? (part : Part) : Option RamBlock :=
  match part.element with
  | .ram addrWidth wordWidth _ writeEnable writeAddr writeData =>
    some ⟨part.name, addrWidth, wordWidth, writeEnable, writeAddr, writeData⟩
  | _ => none

end Part

/-!
### Drivers
-/

/-- How many drivers each net has. -/
def driverCounts (size : Nat) (driven : List NetId) : Array Nat :=
  driven.foldl (fun counts id => counts.modify id.index (· + 1)) (Array.replicate size 0)

/-- Checks that each net of a table has exactly one driver, and reports the first that has not. -/
def checkDrivers (nets : Array NetInfo) (driven : List NetId) : Except NetlistError Unit :=
  match (nets.toList.zip (driverCounts nets.size driven).toList).find? (fun e => e.2 != 1) with
  | none => .ok ()
  | some (net, 0) => .error (.undriven net.name)
  | some (net, count) => .error (.multipleDrivers net.name count)

/-- For each net, the gate that drives it. -/
def producers (size : Nat) (gates : Array Gate) : Array (Option Nat) :=
  gates.toList.zipIdx.foldl
    (fun table (gate, index) => table.setIfInBounds gate.output.index (some index))
    (Array.replicate size none)

/-- The names of the nets on a cycle of gates, the first one again at the end. -/
def cyclePath (nets : Array NetInfo) (gates : Array Gate) (cycle : List Nat) : List String :=
  let names := cycle.map (fun g => (nets.getD (gates.getD g default).output.index default).name)
  names ++ names.head?.toList

/-!
### The whole description
-/

/-- Compiles a description. -/
def Description.compile (d : Description) (config : Config) : Except NetlistError Circuit := do
  let nets ← declareNets config.maxBusWidth d.nets
  let scope : Scope := ⟨config.maxBusWidth, nets⟩
  let inputs ← attachPins scope d.inputs
  let outputs ← attachPins scope d.outputs
  let parts ← d.equations.mapM (fun eq => eq.part scope)
  checkDrivers nets (inputs.map Pin.net ++ parts.map Part.target)
  let gates := (Part.gatesFrom 0 0 parts).toArray
  match (Dependencies.ofGates gates (producers nets.size gates)).schedule with
  | .ok schedule =>
    .ok {
      name := d.name
      nets, inputs, outputs, gates
      registers := parts.filterMap Part.register?
      roms := parts.filterMap Part.romBlock?
      rams := parts.filterMap Part.ramBlock?
      schedule }
  | .error cycle => .error (.combinationalCycle (cyclePath nets gates cycle))

end Netlist
