/-
Module: Netlist.Description.Builder
Layer: Description
Purpose: Building a description net by net. Each call declares its target net together with the
  equation that drives it, and records exactly what it is given; faults come to light when the
  description is compiled. The calls that extract bits work out the width of their target themselves. One
  of them can fail to: a range of 2³² bits has no width, and the call builds nothing.
Imports: Netlist.Description.Basic
Main exports: Description.empty, Description.net, Description.input, Description.output,
  Description.equation and one call for each operation
-/
import Netlist.Description.Basic

namespace Netlist.Description

/-- The description of a circuit without nets. -/
def empty (name : String) : Description :=
  { name }

/-- Declares a net without a driver. -/
def net (d : Description) (name : String) (width : UInt32) : Description :=
  { d with nets := d.nets ++ [⟨name, width⟩] }

/-- Declares an input pin and its net. -/
def input (d : Description) (name : String) (width : UInt32) : Description :=
  { d.net name width with inputs := d.inputs ++ [name] }

/-- Makes a net an output pin; the net may be declared before or after. -/
def output (d : Description) (name : String) : Description :=
  { d with outputs := d.outputs ++ [name] }

/-- Adds an equation without declaring its target. -/
def assign (d : Description) (eq : Equation) : Description :=
  { d with equations := d.equations ++ [eq] }

/-- Declares a net and adds the equation that drives it. -/
def equation (d : Description) (target : String) (width : UInt32) (op : Op) (args : List Operand)
    (params : List UInt32) : Description :=
  (d.net target width).assign ⟨target, op, args, params, none⟩

/-- Adds `target = copy a`. -/
def copy (d : Description) (target : String) (width : UInt32) (a : Operand) : Description :=
  d.equation target width .copy [a] []

/-- Adds `target = not a`. -/
def not (d : Description) (target : String) (width : UInt32) (a : Operand) : Description :=
  d.equation target width .not [a] []

/-- Adds `target = op a b` for an operation of two operands. -/
def binary (d : Description) (target : String) (width : UInt32) (op : Op) (a b : Operand) :
    Description :=
  d.equation target width op [a, b] []

/-- Adds `target = and a b`. -/
def and (d : Description) (target : String) (width : UInt32) (a b : Operand) : Description :=
  d.binary target width .and a b

/-- Adds `target = or a b`. -/
def or (d : Description) (target : String) (width : UInt32) (a b : Operand) : Description :=
  d.binary target width .or a b

/-- Adds `target = xor a b`. -/
def xor (d : Description) (target : String) (width : UInt32) (a b : Operand) : Description :=
  d.binary target width .xor a b

/-- Adds `target = mux sel a b`. -/
def mux (d : Description) (target : String) (width : UInt32) (sel a b : Operand) : Description :=
  d.equation target width .mux [sel, a, b] []

/-- Adds `target = reg next`, a register that starts from zero. -/
def reg (d : Description) (target : String) (width : UInt32) (next : Operand) : Description :=
  d.equation target width .reg [next] []

/-- Adds `target = reg next`, a register that starts from `init`. -/
def regInit (d : Description) (target : String) (width : UInt32) (next : Operand) (init : Word) :
    Description :=
  (d.net target width).assign ⟨target, .reg, [next], [], some init⟩

/-- Adds `target = rom addrWidth wordWidth addr`. -/
def rom (d : Description) (target : String) (addrWidth wordWidth : UInt32) (addr : Operand) :
    Description :=
  d.equation target wordWidth .rom [addr] [addrWidth, wordWidth]

/-- Adds `target = ram addrWidth wordWidth readAddr writeEnable writeAddr data`. -/
def ram (d : Description) (target : String) (addrWidth wordWidth : UInt32)
    (readAddr writeEnable writeAddr data : Operand) : Description :=
  d.equation target wordWidth .ram [readAddr, writeEnable, writeAddr, data] [addrWidth, wordWidth]

/-- Adds `target = concat hi lo`. -/
def concat (d : Description) (target : String) (width : UInt32) (hi lo : Operand) : Description :=
  d.equation target width .concat [hi, lo] []

/-- Adds `target = select index a`, one bit wide. -/
def select (d : Description) (target : String) (index : UInt32) (a : Operand) : Description :=
  d.equation target 1 .select [a] [index]

/-- The difference of two bounds, or zero when they are the wrong way round. -/
def extent (low high : UInt32) : UInt32 :=
  if low ≤ high then high - low else 0

/-- The number of bits from one bound to another, both of them counted. Widths are 32-bit numbers, and the
    one range of 2³² bits has none. -/
def inclusiveExtent? (low high : UInt32) : Option UInt32 :=
  if (extent low high).toNat + 1 < UInt32.size then some (extent low high + 1) else none

/-- Adds `target = slice low high a`, as wide as the range with both bounds, if that is a width. -/
def slice? (d : Description) (target : String) (low high : UInt32) (a : Operand) : Option Description :=
  (inclusiveExtent? low high).map (fun width => d.equation target width .slice [a] [low, high])

/-- Adds `target = snip low high a`, as wide as the range without its upper bound. -/
def snip (d : Description) (target : String) (low high : UInt32) (a : Operand) : Description :=
  d.equation target (extent low high) .snip [a] [low, high]

end Netlist.Description
