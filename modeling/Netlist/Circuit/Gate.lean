/-
Module: Netlist.Circuit.Gate
Layer: Circuit
Purpose: Combinational gates. The operands of a gate are resolved to nets and constants, and its value is
  a total function of the net table and of what the memories hold. Gates that complement, join, extract
  or read memory keep their result within their width; the others pass on what their operands carry.
Imports: Netlist.NetId, Netlist.Word
Main exports: Source, GateKind, Memories, Gate, Gate.eval, Gate.inputNets
-/
import Netlist.NetId
import Netlist.Word

namespace Netlist

/-- The values of all nets, by position. -/
abbrev NetTable := Array Word

/-- The value of a net. A position outside of the table reads as zero. -/
def NetTable.value (nets : NetTable) (id : NetId) : Word :=
  nets.getD id.index 0

/-- The table with the value of one net changed. -/
def NetTable.assign (nets : NetTable) (id : NetId) (value : Word) : NetTable :=
  nets.setIfInBounds id.index value

/-- A change of one value keeps the number of nets. -/
@[simp] theorem NetTable.size_assign (nets : NetTable) (id : NetId) (value : Word) :
    (NetTable.assign nets id value).size = nets.size := by
  simp [NetTable.assign]

/-- A net of the table takes the value it is given. -/
theorem NetTable.value_assign_self {nets : NetTable} {id : NetId} (value : Word)
    (h : id.index < nets.size) : NetTable.value (NetTable.assign nets id value) id = value := by
  simp [NetTable.value, NetTable.assign, h]

/-- All other nets keep their values. -/
theorem NetTable.value_assign_of_ne {nets : NetTable} {id other : NetId} (value : Word)
    (h : other ≠ id) :
    NetTable.value (NetTable.assign nets id value) other = NetTable.value nets other := by
  have hne : id.index ≠ other.index := fun e => h (NetId.index_inj.1 e.symm)
  simp [NetTable.value, NetTable.assign, Array.getD_eq_getD_getElem?, hne]

/-- A resolved operand. -/
inductive Source where
  | net (id : NetId)
  | const (value : Word)
deriving Repr, Inhabited, DecidableEq

namespace Source

/-- The value of an operand. -/
def read (nets : NetTable) : Source → Word
  | .net id => NetTable.value nets id
  | .const value => value

/-- The net that an operand reads, if it reads one. -/
def net? : Source → Option NetId
  | .net id => some id
  | .const _ => none

end Source

/-- What a gate computes. -/
inductive GateKind where
  | copy
  | not
  | and
  | or
  | xor
  | nand
  | nxor
  /-- The second operand when the first is zero, otherwise the third. -/
  | mux
  /-- The first operand above the low operand, which is `lowWidth` bits wide. -/
  | concat (lowWidth : Nat)
  /-- The bits from position `low` upwards, as many as the gate is wide. -/
  | bits (low : Nat)
  /-- The word of a ROM block at the address given by the operand. -/
  | romRead (block : Nat)
  /-- The word of a RAM block at the address given by the operand. -/
  | ramRead (block : Nat)
deriving Repr, Inhabited, DecidableEq

/-- What the memories hold: the word at each address of each block. -/
structure Memories where
  /-- Reads a ROM block. -/
  rom : Nat → Word → Word
  /-- Reads a RAM block. -/
  ram : Nat → Word → Word

instance : Inhabited Memories :=
  ⟨⟨fun _ _ => 0, fun _ _ => 0⟩⟩

/-- A combinational gate. -/
structure Gate where
  /-- What the gate computes. -/
  kind : GateKind
  /-- The operands, in order. -/
  inputs : List Source
  /-- The net that the gate drives. -/
  output : NetId
  /-- The width of the output in bits. -/
  width : Nat
deriving Repr, Inhabited, DecidableEq

namespace Gate

/-- The value of the operand at position `i`; an operand that is not there reads as zero. -/
def operand (g : Gate) (nets : NetTable) (i : Nat) : Word :=
  match g.inputs[i]? with
  | some source => source.read nets
  | none => 0

/-- The value of the gate. -/
def eval (g : Gate) (nets : NetTable) (memories : Memories) : Word :=
  let arg := g.operand nets
  let mask := Word.mask g.width
  match g.kind with
  | .copy => arg 0
  | .not => ~~~(arg 0) &&& mask
  | .and => arg 0 &&& arg 1
  | .or => arg 0 ||| arg 1
  | .xor => arg 0 ^^^ arg 1
  | .nand => ~~~(arg 0 &&& arg 1) &&& mask
  | .nxor => ~~~(arg 0 ^^^ arg 1) &&& mask
  | .mux => if arg 0 = 0 then arg 1 else arg 2
  | .concat lowWidth => ((arg 0 <<< lowWidth.toUInt64) ||| arg 1) &&& mask
  | .bits low => Word.bits (arg 0) low g.width
  | .romRead block => memories.rom block (arg 0) &&& mask
  | .ramRead block => memories.ram block (arg 0) &&& mask

/-- The nets that a gate reads, in operand order, once for each operand. -/
def inputNets (g : Gate) : List NetId :=
  g.inputs.filterMap Source.net?

end Gate

end Netlist
