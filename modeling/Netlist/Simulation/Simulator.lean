/-
Module: Netlist.Simulation.Simulator
Layer: Simulation
Purpose: Running a circuit step by step. A step takes a value for every input pin and nothing else,
  settles the circuit, reads the output pins and only then lets registers and memories take their new
  values. A vector that does not match the input pins is refused and changes nothing.
Imports: Netlist.Simulation.State, Netlist.Simulation.Statistics, Netlist.Simulation.Vector
Main exports: Simulator, Simulator.create, Simulator.step, Simulator.run, Simulator.reset,
  Simulator.peek?, Simulator.snapshot
-/
import Netlist.Simulation.State
import Netlist.Simulation.Statistics
import Netlist.Simulation.Vector

namespace Netlist

/-- A simulation: a circuit with its memories and its state. -/
structure Simulator where
  /-- The circuit. -/
  circuit : Circuit
  /-- The ROM contents. -/
  rom : RomStore
  /-- The state of the circuit. -/
  state : State
  /-- What has been done so far. -/
  stats : Statistics := {}
  /-- Whether the inputs and outputs of every step are logged. -/
  traceSteps : Bool
  /-- Whether the counters are kept. -/
  collectStats : Bool
deriving Repr, Inhabited, DecidableEq

/-- Matches an input vector against pins: every pin has a value, every value has a pin, and every value
    fits. The first fault of this order is reported. -/
def matchInputs (pins : List Pin) (inputs : InputVector) :
    Except StepError (List (NetId × Word)) :=
  match pins.find? (fun pin => (inputs.get? pin.name).isNone) with
  | some pin => .error (.missingInput pin.name)
  | none =>
    match inputs.entries.find? (fun e => !pins.any (fun pin => pin.name == e.1)) with
    | some e => .error (.unknownInput e.1)
    | none =>
      pins.mapM (fun pin =>
        let value := (inputs.get? pin.name).getD 0
        if Word.fits value pin.width then .ok (pin.net, value)
        else .error (.valueOutOfRange pin.name value pin.width))

namespace Simulator

/-- A simulation at power-on: registers at their power-on values, everything else zero. -/
def create (circuit : Circuit) (rom : RomStore) (config : Config) : Simulator where
  circuit
  rom
  state := (State.blank circuit).resetRegisters circuit
  traceSteps := config.traceSteps
  collectStats := config.collectStats

/-- The values of the output pins on the given nets. -/
def outputs (c : Circuit) (nets : NetTable) : OutputVector :=
  ⟨c.outputs.map (fun pin => (pin.name, NetTable.value nets pin.net))⟩

/-- The counters after a step with this many gates evaluated and the given commit. -/
def count (sim : Simulator) (evaluated : Nat) (committed : CommitCount) : Statistics :=
  if sim.collectStats then {
    steps := sim.stats.steps + 1
    gateEvaluations := sim.stats.gateEvaluations + evaluated
    registerCommits := sim.stats.registerCommits + committed.registers
    ramWrites := sim.stats.ramWrites + committed.writes }
  else sim.stats

/-- Runs one step. -/
def step (sim : Simulator) (inputs : InputVector) :
    Except StepError (OutputVector × Simulator) := do
  let assignments ← matchInputs sim.circuit.inputs inputs
  let (settled, evaluated) := (sim.state.drive assignments).settle sim.circuit sim.rom
  let (state, committed) := (settled.sample sim.circuit).commit sim.circuit
  .ok (outputs sim.circuit settled.nets, { sim with state, stats := sim.count evaluated committed })

/-- Runs one step for each vector up to the first that is refused. The steps before it have taken
    effect. -/
def run (sim : Simulator) : List InputVector → Except StepError (List OutputVector) × Simulator
  | [] => (.ok [], sim)
  | inputs :: rest =>
    match sim.step inputs with
    | .error fault => (.error fault, sim)
    | .ok (outputs, sim) =>
      match run sim rest with
      | (.ok later, sim) => (.ok (outputs :: later), sim)
      | (.error fault, sim) => (.error fault, sim)

/-- The value of a net after the last step. -/
def peek? (sim : Simulator) (net : String) : Option Word :=
  (sim.circuit.net? net).map (NetTable.value sim.state.nets)

/-- The registers and RAM cells. -/
def snapshot (sim : Simulator) : Snapshot :=
  sim.state.snapshot sim.circuit

/-- Puts the circuit back to power-on. ROM contents and counters are kept. -/
def reset (sim : Simulator) : Simulator :=
  { sim with state := sim.state.reset sim.circuit }

end Simulator

end Netlist
