/-
Module: Netlist.Circuit.Basic
Layer: Circuit
Purpose: Compiled circuits. A circuit holds its nets in a table, its gates with their evaluation order,
  its registers and its memory blocks; names are resolved to positions throughout.
Imports: Netlist.Circuit.Gate
Main exports: NetInfo, Pin, Register, RomBlock, RamBlock, Circuit, Circuit.net?
-/
import Netlist.Circuit.Gate

namespace Netlist

/-- A net of a circuit. -/
structure NetInfo where
  /-- The name of the net. -/
  name : String
  /-- The width in bits. -/
  width : Nat
deriving Repr, Inhabited, DecidableEq

/-- An input or output pin. -/
structure Pin where
  /-- The name of the pin, which is the name of its net. -/
  name : String
  /-- The net that carries the value of the pin. -/
  net : NetId
  /-- The width in bits. -/
  width : Nat
deriving Repr, Inhabited, DecidableEq

/-- A register. -/
structure Register where
  /-- The net that holds the value during a step. -/
  current : NetId
  /-- The operand that is sampled at the end of a step. -/
  next : Source
  /-- The width in bits. -/
  width : Nat
  /-- The value before the first step and after a reset. -/
  init : Word
deriving Repr, Inhabited, DecidableEq

/-- A read-only memory. -/
structure RomBlock where
  /-- The name of the block, which is the name of the net it drives. -/
  name : String
  /-- The width of an address in bits. -/
  addrWidth : Nat
  /-- The width of a word in bits. -/
  wordWidth : Nat
deriving Repr, Inhabited, DecidableEq

/-- A memory that can be written. -/
structure RamBlock where
  /-- The name of the block, which is the name of the net it drives. -/
  name : String
  /-- The width of an address in bits. -/
  addrWidth : Nat
  /-- The width of a word in bits. -/
  wordWidth : Nat
  /-- A write happens when this operand is not zero. -/
  writeEnable : Source
  /-- The address of the write. -/
  writeAddr : Source
  /-- The word of the write. -/
  writeData : Source
deriving Repr, Inhabited, DecidableEq

/-- A compiled circuit. Gates, registers and memory blocks stand in the order of their equations. -/
structure Circuit where
  /-- The name of the circuit. -/
  name : String
  /-- The nets, by position. -/
  nets : Array NetInfo
  /-- The input pins, in order of declaration. -/
  inputs : List Pin
  /-- The output pins, in order of declaration. -/
  outputs : List Pin
  /-- The gates. -/
  gates : Array Gate
  /-- The registers. -/
  registers : List Register
  /-- The ROM blocks, by block number. -/
  roms : List RomBlock
  /-- The RAM blocks, by block number. -/
  rams : List RamBlock
  /-- The gates' indices in evaluation order. -/
  schedule : List Nat
deriving Repr, Inhabited, DecidableEq

/-- The position of the net with a given name in a table. -/
def findNet? (nets : Array NetInfo) (name : String) : Option NetId :=
  (nets.findIdx? (fun net => net.name == name)).map NetId.ofIndex

namespace Circuit

/-- The net with a given name. -/
def net? (c : Circuit) (name : String) : Option NetId :=
  findNet? c.nets name

/-- The name of a net. -/
def netName (c : Circuit) (id : NetId) : String :=
  match c.nets[id.index]? with
  | some net => net.name
  | none => ""

end Circuit

end Netlist
