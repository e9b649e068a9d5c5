/-
Module: Netlist.Simulation.State
Layer: Simulation
Purpose: The state of a running circuit: the value of every net, the contents of the RAM blocks and the
  updates that have been sampled but not yet committed. A step settles the gates in schedule order,
  samples the registers and the writes from the settled nets, and commits what was sampled.
Imports: Netlist.Circuit.Basic, Netlist.Ram, Netlist.Rom.Store
Main exports: Pending, State, State.blank, State.settle, State.sample, State.commit,
  State.resetRegisters, Snapshot, State.snapshot
-/
import Netlist.Circuit.Basic
import Netlist.Ram
import Netlist.Rom.Store

namespace Netlist

/-- A write to a RAM block. -/
structure RamWrite where
  /-- The number of the block. -/
  block : Nat
  /-- The address. -/
  address : Word
  /-- The word. -/
  data : Word
deriving Repr, Inhabited, DecidableEq

/-- Updates that wait to be committed. -/
structure Pending where
  /-- The next values of the registers, in order. -/
  registers : List Word := []
  /-- The writes to RAM blocks, in order of block numbers. -/
  writes : List RamWrite := []
deriving Repr, Inhabited, DecidableEq

/-- How many updates a commit made. -/
structure CommitCount where
  /-- Registers that took their next value. -/
  registers : Nat
  /-- Words written to RAM blocks. -/
  writes : Nat
deriving Repr, Inhabited, DecidableEq

/-- The state of a running circuit. -/
structure State where
  /-- The value of every net. -/
  nets : NetTable
  /-- The contents of the RAM blocks. -/
  ram : RamStore
  /-- The sampled updates. -/
  pending : Pending := {}
deriving Repr, Inhabited, DecidableEq

/-- The register values and the RAM cells that are not zero, all in the order of the equations. -/
structure Snapshot where
  /-- Each register by name, with its value. -/
  registers : List (String × Word)
  /-- Each RAM block by name, with its cells that are not zero. -/
  rams : List (String × List (Word × Word))
deriving Repr, Inhabited, DecidableEq

/-- The value of the register with a given name. -/
def Snapshot.register? (s : Snapshot) (name : String) : Option Word :=
  (s.registers.find? (fun e => e.1 == name)).map (·.2)

namespace State

/-- The state in which every net and every cell is zero, registers included. -/
def blank (c : Circuit) : State where
  nets := Array.replicate c.nets.size 0
  ram := RamStore.ofCircuit c

/-- Gives nets new values. -/
def drive (s : State) (assignments : List (NetId × Word)) : State :=
  { s with nets := assignments.foldl (fun nets a => NetTable.assign nets a.1 a.2) s.nets }

/-- The net table after one gate has had its turn. -/
def settleGate (c : Circuit) (memories : Memories) (nets : NetTable) (index : Nat) : NetTable :=
  match c.gates[index]? with
  | some gate => NetTable.assign nets gate.output (gate.eval nets memories)
  | none => nets

/-- The net table after every gate has had its turn, in schedule order. -/
def settleNets (c : Circuit) (memories : Memories) (nets : NetTable) : NetTable :=
  c.schedule.foldl (settleGate c memories) nets

/-- The memories that gates read: the ROM contents and the RAM contents of before the step. -/
def memories (rom : RomStore) (ram : RamStore) : Memories :=
  ⟨rom.read, ram.read⟩

/-- Evaluates every gate once, in schedule order, and counts them. -/
def settle (c : Circuit) (rom : RomStore) (s : State) : State × Nat :=
  ({ s with nets := settleNets c (memories rom s.ram) s.nets }, c.schedule.length)

/-- The write that the nets ask a RAM block for. -/
def writeRequest? (nets : NetTable) (block : Nat) (ram : RamBlock) : Option RamWrite :=
  if ram.writeEnable.read nets = 0 then none
  else some {
    block
    address := ram.writeAddr.read nets &&& Word.mask ram.addrWidth
    data := ram.writeData.read nets &&& Word.mask ram.wordWidth }

/-- The updates that the nets ask for. -/
def updates (c : Circuit) (nets : NetTable) : Pending where
  registers := c.registers.map (fun r => r.next.read nets &&& Word.mask r.width)
  writes := c.rams.zipIdx.filterMap (fun e => writeRequest? nets e.2 e.1)

/-- Samples the next values of the registers and the enabled writes, in place of any earlier sample. -/
def sample (c : Circuit) (s : State) : State :=
  { s with pending := updates c s.nets }

/-- Applies what was sampled: all registers at once, then the writes. -/
def commit (c : Circuit) (s : State) : State × CommitCount :=
  let nets := (c.registers.zip s.pending.registers).foldl
    (fun nets e => NetTable.assign nets e.1.current e.2) s.nets
  let ram := s.pending.writes.foldl (fun ram w => ram.write w.block w.address w.data) s.ram
  ({ nets, ram }, ⟨s.pending.registers.length, s.pending.writes.length⟩)

/-- Puts every register back to its power-on value and drops what was sampled. -/
def resetRegisters (c : Circuit) (s : State) : State :=
  { s with
    nets := c.registers.foldl (fun nets r => NetTable.assign nets r.current r.init) s.nets
    pending := {} }

/-- Puts the whole circuit back: nets and RAM cells to zero, registers to their power-on values. -/
def reset (c : Circuit) (s : State) : State :=
  resetRegisters c
    { s with nets := Array.replicate s.nets.size 0, ram := s.ram.clear }

/-- The registers and RAM cells of a state. -/
def snapshot (c : Circuit) (s : State) : Snapshot where
  registers := c.registers.map (fun r => (c.netName r.current, NetTable.value s.nets r.current))
  rams := c.rams.zipIdx.map (fun e => (e.1.name, s.ram.nonZero e.2))

end State

end Netlist
