/-
Module: Netlist.Log.Journal
Layer: Log
Purpose: The events of each operation, as functions of what the operation is given. They stand beside the
  operations, which stay free of logging.
Imports: Netlist.Circuit.Compile, Netlist.Log.Event, Netlist.Simulation.Simulator
Main exports: Description.compileEvents, RomStore.loadEvents, RomStore.loadBytesEvents,
  RomStore.loadBlockEvents, Simulator.createEvents, Simulator.stepEvents, Simulator.runEvents
-/
import Netlist.Circuit.Compile
import Netlist.Log.Event
import Netlist.Simulation.Simulator

namespace Netlist

/-- The events of compiling a description. The drivers are known to be in order also when the gates turn
    out to form a cycle. -/
def Description.compileEvents (d : Description) (config : Config) : List Event :=
  match d.compile config with
  | .ok c =>
    [.driversChecked c.nets.size,
     .compiled c.name c.nets.size c.gates.size c.registers.length c.roms.length c.rams.length]
  | .error (.combinationalCycle _) => [.driversChecked d.nets.length]
  | .error _ => []

namespace RomStore

/-- The event of a block that has been filled. -/
def filledEvent (store : RomStore) (e : Nat × List Word) : Event :=
  .blockFilled (store.blocks.getD e.1 default).block.name e.2.length

/-- The events of loading an image. Blocks that were filled before a fault are noted as filled. -/
def loadEvents (store : RomStore) (image : RomImage) : List Event :=
  let capacity := store.capacity
  let count := image.words.length
  if store.refusesLength count then []
  else
    let filling := fill image.words 0 store.byName
    (if count < capacity then [.imageShort capacity count] else []) ++
      filling.filled.map store.filledEvent ++
      (if filling.fault.isSome then []
        else
          (if capacity < count ∨ image.truncated then [.imageLong capacity] else []) ++
            [.imageLoaded store.blocks.size (min count capacity)])

/-- The events of reading an image and loading it. -/
def loadBytesEvents (store : RomStore) (bytes : List UInt8) : List Event :=
  if store.isEmpty then [.imageSkipped]
  else
    match RomImage.scan store.capacity bytes with
    | .ok image => store.loadEvents image
    | .error _ => []

/-- The events of filling a single block. -/
def loadBlockEvents (store : RomStore) (name : String) (words : List Word) : List Event :=
  match store.find? name with
  | none => []
  | some (_, contents) =>
    if contents.capacity < words.length then
      [.surplusIgnored name (words.length - contents.capacity)]
    else []

end RomStore

namespace Simulator

/-- The events of starting a simulation. -/
def createEvents (circuit : Circuit) (rom : RomStore) : List Event :=
  if !rom.isEmpty && !rom.loaded then [.imageMissing circuit.name rom.blocks.size] else []

/-- The events of a step; a refused step has none. -/
def stepEvents (sim : Simulator) (inputs : InputVector) : List Event :=
  match sim.step inputs with
  | .error _ => []
  | .ok (outputs, _) =>
    let n := sim.stats.steps
    [.settling n, .committing n, .stepComplete n] ++
      (if sim.traceSteps then [.stepTraced n inputs outputs] else [])

/-- The events of a run. -/
def runEvents (sim : Simulator) : List InputVector → List Event
  | [] => []
  | inputs :: rest =>
    match sim.step inputs with
    | .error _ => []
    | .ok (_, next) => sim.stepEvents inputs ++ runEvents next rest

/-- The events of a reset. -/
def resetEvents (sim : Simulator) : List Event :=
  [.reset sim.circuit.name]

end Simulator

end Netlist
