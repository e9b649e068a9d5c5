/-
Module: Netlist.Ram
Layer: Memory
Purpose: The contents of RAM blocks, in which every cell starts at zero. Blocks with short addresses are
  kept as a flat array of all cells, blocks with long ones as a map of the cells that are not zero; the
  two cannot be told apart through reading, writing and listing. A listing is sorted by address, so it
  does not depend on the order in which cells are kept.
Imports: Netlist.Circuit.Basic, Netlist.SortedMap
Main exports: Cells, Cells.read, Cells.write, Cells.occupied, Cells.nonZero, RamStore and its operations
-/
import Netlist.Circuit.Basic
import Netlist.SortedMap

namespace Netlist

/-- The cells of one RAM block. -/
inductive Cells where
  /-- All cells, by address. -/
  | dense (words : Array Word)
  /-- The cells that are not zero, by address. -/
  | sparse (words : SortedMap Word Word)
deriving Repr, DecidableEq

namespace Cells

instance : Inhabited Cells :=
  ⟨.sparse .empty⟩

/-- The widest address of a block that is kept as a flat array. -/
def denseLimit : Nat := 16

/-- The cells of a block, all zero. -/
def blank (addrWidth : Nat) : Cells :=
  if addrWidth ≤ denseLimit then .dense (Array.replicate (Word.addressSpace addrWidth) 0)
  else .sparse .empty

/-- The word at an address. -/
def read (address : Word) : Cells → Word
  | .dense words => words.getD address.toNat 0
  | .sparse words => (words.get? address).getD 0

/-- Stores a word at an address. An address outside of a flat array stores nothing. -/
def write (address value : Word) : Cells → Cells
  | .dense words => .dense (words.setIfInBounds address.toNat value)
  | .sparse words =>
    .sparse (if value = 0 then words.erase address else words.insert address value)

/-- Sets every cell to zero. -/
def clear : Cells → Cells
  | .dense words => .dense (Array.replicate words.size 0)
  | .sparse _ => .sparse .empty

/-- The addresses and words of the cells that are not zero, in whatever order they are kept. -/
def occupied : Cells → List (Word × Word)
  | .dense words =>
    words.toList.zipIdx.filterMap (fun e =>
      if e.1 = 0 then none else some (UInt64.ofNat e.2, e.1))
  | .sparse words => words.entries

/-- The addresses and words of the cells that are not zero, sorted by address. -/
def nonZero (cells : Cells) : List (Word × Word) :=
  cells.occupied.mergeSort (fun a b => a.1 ≤ b.1)

end Cells

/-- The contents of all RAM blocks of a circuit. -/
structure RamStore where
  /-- The cells of each block, by block number. -/
  blocks : Array Cells
deriving Repr, Inhabited, DecidableEq

namespace RamStore

/-- The cleared store of a circuit. -/
def ofCircuit (c : Circuit) : RamStore :=
  ⟨(c.rams.map (fun block => Cells.blank block.addrWidth)).toArray⟩

/-- Reads a word. -/
def read (store : RamStore) (block : Nat) (address : Word) : Word :=
  match store.blocks[block]? with
  | some cells => cells.read address
  | none => 0

/-- Writes a word. -/
def write (store : RamStore) (block : Nat) (address value : Word) : RamStore :=
  ⟨store.blocks.modify block (Cells.write address value)⟩

/-- Clears every block. -/
def clear (store : RamStore) : RamStore :=
  ⟨store.blocks.map Cells.clear⟩

/-- The cells of a block that are not zero, in ascending order of addresses. -/
def nonZero (store : RamStore) (block : Nat) : List (Word × Word) :=
  match store.blocks[block]? with
  | some cells => cells.nonZero
  | none => []

end RamStore

end Netlist
