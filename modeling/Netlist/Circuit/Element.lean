/-
Module: Netlist.Circuit.Element
Layer: Circuit
Purpose: The typing of equations. Each equation is checked by itself against the declared nets: its
  target, the number of its operands and parameters, and the widths of its operands, where a constant
  without a width takes the one that its position asks for. An equation that passes becomes an element:
  a gate, a register or a memory.
Imports: Netlist.Circuit.Basic, Netlist.Error
Main exports: Scope, Scope.resolve, Element, Element.ofEquation, Part, Part.ofEquation
-/
import Netlist.Circuit.Basic
import Netlist.Error

namespace Netlist

/-- What the equations of a description are checked against. -/
structure Scope where
  /-- The widest bus allowed. -/
  limit : Nat
  /-- The declared nets. -/
  nets : Array NetInfo
deriving Repr, Inhabited, DecidableEq

namespace Scope

/-- Whether a width is allowed. -/
def admits (scope : Scope) (width : Nat) : Bool :=
  0 < width && width ≤ scope.limit

/-- The net with a given name. -/
def find (scope : Scope) (name : String) : Except NetlistError NetId :=
  match findNet? scope.nets name with
  | some id => .ok id
  | none => .error (.unknownNet name)

/-- The width of a net. -/
def width (scope : Scope) (id : NetId) : Nat :=
  match scope.nets[id.index]? with
  | some net => net.width
  | none => 0

end Scope

/-- A resolved operand with its width. -/
structure Typed where
  /-- The operand. -/
  source : Source
  /-- Its width in bits. -/
  width : Nat
deriving Repr, Inhabited, DecidableEq

/-- What an equation contributes to a circuit. Memory blocks are numbered later, when all elements are
    put together. -/
inductive Element where
  /-- A gate that reads no memory. -/
  | logic (kind : GateKind) (inputs : List Source)
  /-- A register. -/
  | register (next : Source) (init : Word)
  /-- A ROM block with the address that is read. -/
  | rom (addrWidth wordWidth : Nat) (addr : Source)
  /-- A RAM block with the address that is read and the operands of its write. -/
  | ram (addrWidth wordWidth : Nat) (readAddr writeEnable writeAddr writeData : Source)
deriving Repr, Inhabited, DecidableEq

namespace Equation

/-!
### Operands
-/

/-- Resolves an operand. A constant without a width takes the expected one; a constant has to fit its
    width. -/
def resolve (eq : Equation) (scope : Scope) (operand : Operand) (expected : Option Nat) :
    Except NetlistError Typed :=
  match operand with
  | .net name => do
    let id ← scope.find name
    .ok ⟨.net id, scope.width id⟩
  | .const value width =>
    match (width.map UInt32.toNat).or expected with
    | none => .error (.untypedConstant eq.target eq.op value)
    | some width =>
      if scope.admits width then
        if Word.fits value width then .ok ⟨.const value, width⟩
        else .error (.valueTooWide eq.target value width)
      else .error (.invalidConstantWidth eq.target value width scope.limit)

/-- Checks the width found at a place of an equation. -/
def expectWidth (eq : Equation) (what : Place) (expected found : Nat) : Except NetlistError Unit :=
  if expected = found then .ok () else .error (.widthMismatch eq.target eq.op what expected found)

/-- Checks the number of operands and parameters, and that only registers have a power-on value. -/
def checkShape (eq : Equation) : Except NetlistError Unit :=
  let (operands, parameters) := eq.op.signature
  if eq.args.length ≠ operands then
    .error (.arity eq.target eq.op .operands operands eq.args.length)
  else if eq.params.length ≠ parameters then
    .error (.arity eq.target eq.op .parameters parameters eq.params.length)
  else if eq.init.isSome ∧ eq.op ≠ .reg then
    .error (.unexpectedInit eq.target eq.op)
  else .ok ()

/-!
### Operations

In each of the following the width of the target is given. All operands are resolved before any width
is compared, so a fault inside an operand is found before a mismatch of widths.
-/

/-- A gate of one operand, which is as wide as the target. -/
def unary (eq : Equation) (scope : Scope) (width : Nat) (kind : GateKind) (a : Operand) :
    Except NetlistError Element := do
  let a ← eq.resolve scope a (some width)
  eq.expectWidth .operand width a.width
  .ok (.logic kind [a.source])

/-- A gate of two operands, both as wide as the target. -/
def binary (eq : Equation) (scope : Scope) (width : Nat) (kind : GateKind) (a b : Operand) :
    Except NetlistError Element := do
  let a ← eq.resolve scope a (some width)
  let b ← eq.resolve scope b (some width)
  eq.expectWidth .leftOperand width a.width
  eq.expectWidth .rightOperand width b.width
  .ok (.logic kind [a.source, b.source])

/-- A choice between two operands by a selector of one bit. -/
def mux (eq : Equation) (scope : Scope) (width : Nat) (sel a b : Operand) :
    Except NetlistError Element := do
  let sel ← eq.resolve scope sel (some 1)
  let a ← eq.resolve scope a (some width)
  let b ← eq.resolve scope b (some width)
  eq.expectWidth .selector 1 sel.width
  eq.expectWidth .firstInput width a.width
  eq.expectWidth .secondInput width b.width
  .ok (.logic .mux [sel.source, a.source, b.source])

/-- The width that an operand has by itself: that of a net, or the one a constant is given. -/
def ownWidth (scope : Scope) : Operand → Except NetlistError (Option Nat)
  | .net name => do
    let id ← scope.find name
    .ok (some (scope.width id))
  | .const _ width => .ok (width.map UInt32.toNat)

/-- The width that the other side of a concatenation leaves, if it leaves any. -/
def remainder (width : Nat) : Option Nat → Option Nat
  | some other => if other < width then some (width - other) else none
  | none => none

/-- A concatenation. A constant without a width takes what the other side leaves. -/
def concat (eq : Equation) (scope : Scope) (width : Nat) (hi lo : Operand) :
    Except NetlistError Element := do
  let hiOwn ← ownWidth scope hi
  let loOwn ← ownWidth scope lo
  let hi ← eq.resolve scope hi (remainder width loOwn)
  let lo ← eq.resolve scope lo (remainder width hiOwn)
  eq.expectWidth .result width (hi.width + lo.width)
  .ok (.logic (.concat lo.width) [hi.source, lo.source])

/-- An extraction of `count` bits from position `low` on, allowed when `inside` says so for the width of
    the operand. The bounds are shown as they are written. The operand needs a width of its own. -/
def extract (eq : Equation) (scope : Scope) (width : Nat) (a : Operand) (low high count : Nat)
    (inside : Nat → Bool) : Except NetlistError Element := do
  let a ← eq.resolve scope a none
  if inside a.width then
    eq.expectWidth .result width count
    .ok (.logic (.bits low) [a.source])
  else .error (.bitRange eq.target eq.op low high a.width)

/-- A register. Its power-on value, zero by default, has to fit. -/
def register (eq : Equation) (scope : Scope) (width : Nat) (next : Operand) :
    Except NetlistError Element := do
  let next ← eq.resolve scope next (some width)
  eq.expectWidth .nextValue width next.width
  let init := eq.init.getD 0
  if Word.fits init width then .ok (.register next.source init)
  else .error (.valueTooWide eq.target init width)

/-- Checks the address width and the word width of a memory. -/
def checkMemory (eq : Equation) (scope : Scope) (width addrWidth wordWidth : Nat) :
    Except NetlistError Unit :=
  if scope.admits addrWidth then
    if scope.admits wordWidth then eq.expectWidth .word wordWidth width
    else .error (.invalidWidth eq.target wordWidth scope.limit)
  else .error (.invalidWidth eq.target addrWidth scope.limit)

/-- A read-only memory. -/
def rom (eq : Equation) (scope : Scope) (width addrWidth wordWidth : Nat) (addr : Operand) :
    Except NetlistError Element := do
  eq.checkMemory scope width addrWidth wordWidth
  let addr ← eq.resolve scope addr (some addrWidth)
  eq.expectWidth .address addrWidth addr.width
  .ok (.rom addrWidth wordWidth addr.source)

/-- A memory that can be written. -/
def ram (eq : Equation) (scope : Scope) (width addrWidth wordWidth : Nat)
    (readAddr writeEnable writeAddr writeData : Operand) : Except NetlistError Element := do
  eq.checkMemory scope width addrWidth wordWidth
  let readAddr ← eq.resolve scope readAddr (some addrWidth)
  let writeEnable ← eq.resolve scope writeEnable (some 1)
  let writeAddr ← eq.resolve scope writeAddr (some addrWidth)
  let writeData ← eq.resolve scope writeData (some wordWidth)
  eq.expectWidth .readAddress addrWidth readAddr.width
  eq.expectWidth .writeEnable 1 writeEnable.width
  eq.expectWidth .writeAddress addrWidth writeAddr.width
  eq.expectWidth .writeData wordWidth writeData.width
  .ok (.ram addrWidth wordWidth readAddr.source writeEnable.source writeAddr.source
    writeData.source)

/-- The element of an equation of the right shape whose target is `width` bits wide. -/
def element (eq : Equation) (scope : Scope) (width : Nat) : Except NetlistError Element :=
  match eq.op, eq.args, eq.params.map UInt32.toNat with
  | .copy, [a], [] => eq.unary scope width .copy a
  | .not, [a], [] => eq.unary scope width .not a
  | .and, [a, b], [] => eq.binary scope width .and a b
  | .or, [a, b], [] => eq.binary scope width .or a b
  | .xor, [a, b], [] => eq.binary scope width .xor a b
  | .nand, [a, b], [] => eq.binary scope width .nand a b
  | .nxor, [a, b], [] => eq.binary scope width .nxor a b
  | .mux, [sel, a, b], [] => eq.mux scope width sel a b
  | .reg, [next], [] => eq.register scope width next
  | .ram, [readAddr, writeEnable, writeAddr, writeData], [addrWidth, wordWidth] =>
    eq.ram scope width addrWidth wordWidth readAddr writeEnable writeAddr writeData
  | .rom, [addr], [addrWidth, wordWidth] => eq.rom scope width addrWidth wordWidth addr
  | .concat, [hi, lo], [] => eq.concat scope width hi lo
  | .select, [a], [i] => eq.extract scope width a i i 1 (fun w => i < w)
  | .slice, [a], [low, high] =>
    eq.extract scope width a low high (high - low + 1) (fun w => low ≤ high && high < w)
  | .snip, [a], [low, high] =>
    eq.extract scope width a low high (high - low) (fun w => low < high && high ≤ w)
  | op, args, _ => .error (.arity eq.target op .operands op.signature.1 args.length)

end Equation

/-- An element in its place. -/
structure Part where
  /-- The name of the net that the element drives. -/
  name : String
  /-- The net that the element drives. -/
  target : NetId
  /-- The width of that net. -/
  width : Nat
  /-- The element. -/
  element : Element
deriving Repr, Inhabited, DecidableEq

/-- Checks an equation and makes it a part of a circuit. -/
def Equation.part (eq : Equation) (scope : Scope) : Except NetlistError Part := do
  let target ← scope.find eq.target
  let width := scope.width target
  eq.checkShape
  let element ← eq.element scope width
  .ok { name := eq.target, target, width, element }

end Netlist
