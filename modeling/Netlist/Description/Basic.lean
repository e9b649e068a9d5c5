/-
Module: Netlist.Description.Basic
Layer: Description
Purpose: Circuit descriptions. A description is plain data: the declared nets with their widths, the
  names of the input and output pins, and one equation for each net that is not an input pin. Nothing
  here checks widths, drivers or cycles; that happens when a description is compiled.
Imports: Netlist.Word
Main exports: Op, Op.name, Op.ofName?, Op.signature, Operand, NetDecl, Equation, Description
-/
import Netlist.Word

namespace Netlist

/-- The operation that computes the target of an equation. -/
inductive Op where
  /-- Forwards its operand: `copy a`. -/
  | copy
  /-- Complements every bit: `not a`. -/
  | not
  /-- Bitwise conjunction: `and a b`. -/
  | and
  /-- Bitwise disjunction: `or a b`. -/
  | or
  /-- Bitwise exclusive disjunction: `xor a b`. -/
  | xor
  /-- Complement of the conjunction: `nand a b`. -/
  | nand
  /-- Complement of the exclusive disjunction: `nxor a b`. -/
  | nxor
  /-- Choice, `mux sel a b`: `a` when `sel` is zero and `b` otherwise. -/
  | mux
  /-- Register, `reg d`: the value that `d` had at the end of the previous step. -/
  | reg
  /-- Memory that is read and written: `ram addr word | read enable write data`. -/
  | ram
  /-- Memory whose words come from an image: `rom addr word | read`. -/
  | rom
  /-- Concatenation, `concat hi lo`: `hi` stands above `lo`. -/
  | concat
  /-- One bit, `select i | a`: bit `i` of `a`. -/
  | select
  /-- A range, `slice low high | a`: the bits `low` to `high` of `a`, both included. -/
  | slice
  /-- A range, `snip low high | a`: the bits from `low` up to, but without, `high` of `a`. -/
  | snip
deriving Repr, Inhabited, DecidableEq

namespace Op

/-- Every operation. -/
def all : List Op :=
  [.copy, .not, .and, .or, .xor, .nand, .nxor, .mux, .reg, .ram, .rom, .concat, .select, .slice,
   .snip]

/-- The keyword of an operation. -/
def name : Op → String
  | .copy => "copy"
  | .not => "not"
  | .and => "and"
  | .or => "or"
  | .xor => "xor"
  | .nand => "nand"
  | .nxor => "nxor"
  | .mux => "mux"
  | .reg => "reg"
  | .ram => "ram"
  | .rom => "rom"
  | .concat => "concat"
  | .select => "select"
  | .slice => "slice"
  | .snip => "snip"

/-- The operation with a given keyword. -/
def ofName? (name : String) : Option Op :=
  all.find? (fun op => op.name == name)

/-- How many operands and how many parameters an operation takes. Operands are nets or constants, read
    in every step; parameters are numbers fixed in the description. -/
def signature : Op → Nat × Nat
  | .copy | .not | .reg => (1, 0)
  | .and | .or | .xor | .nand | .nxor | .concat => (2, 0)
  | .mux => (3, 0)
  | .ram => (4, 2)
  | .rom | .slice | .snip => (1, 2)
  | .select => (1, 1)

end Op

/-- An operand of an equation. -/
inductive Operand where
  /-- A net, by name. -/
  | net (name : String)
  /-- A constant. Without a width of its own it takes the width that its position asks for. -/
  | const (value : Word) (width : Option UInt32)
deriving Repr, Inhabited, DecidableEq

/-- The declaration of a net. -/
structure NetDecl where
  /-- The name of the net. -/
  name : String
  /-- The width in bits. -/
  width : UInt32
deriving Repr, Inhabited, DecidableEq

/-- An equation `target = op params args`. -/
structure Equation where
  /-- The net that the equation drives. -/
  target : String
  /-- The operation. -/
  op : Op
  /-- The operands, in the order that the operation takes them. -/
  args : List Operand
  /-- The parameters, in the order that the operation takes them. -/
  params : List UInt32 := []
  /-- The power-on value of a register. -/
  init : Option Word := none
deriving Repr, Inhabited, DecidableEq

/-- A circuit description. -/
structure Description where
  /-- The name of the circuit. -/
  name : String
  /-- The input pins, in the order in which they are prompted for. -/
  inputs : List String := []
  /-- The output pins, in the order in which they are printed. -/
  outputs : List String := []
  /-- Every net of the circuit, pins included. -/
  nets : List NetDecl := []
  /-- One equation for each net that is not an input pin. -/
  equations : List Equation := []
deriving Repr, Inhabited, DecidableEq

end Netlist
