/-
Module: Netlist.NetId
Layer: Foundations
Purpose: Net identifiers. A net is named by its position in the net table of a compiled circuit; the
  position is kept in 32 bits.
Imports: none
Main exports: NetId, NetId.ofIndex, NetId.index, NetId.text
-/

namespace Netlist

/-- The position of a net in the net table. -/
structure NetId where
  /-- The position, as a 32-bit number. -/
  position : UInt32
deriving Repr, Inhabited, DecidableEq

namespace NetId

/-- The identifier of the net at `index`. A position of 2³² or more keeps its low 32 bits only. -/
def ofIndex (index : Nat) : NetId :=
  ⟨UInt32.ofNat index⟩

/-- The position in the net table. -/
def index (id : NetId) : Nat :=
  id.position.toNat

/-- An identifier is determined by its position. -/
theorem index_inj {a b : NetId} : a.index = b.index ↔ a = b := by
  constructor
  · intro h
    cases a
    cases b
    exact congrArg NetId.mk (UInt32.toNat_inj.1 h)
  · intro h
    exact congrArg index h

/-- A position below 2³² is kept. -/
theorem index_ofIndex {index : Nat} (h : index < UInt32.size) : (ofIndex index).index = index :=
  UInt32.toNat_ofNat_of_lt' h

/-- The short text of an identifier: `n` and the position in decimal. -/
def text (id : NetId) : String :=
  "n" ++ toString id.index

end NetId

end Netlist
