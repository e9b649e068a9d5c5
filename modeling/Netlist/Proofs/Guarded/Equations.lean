/-
Module: Netlist.Proofs.Guarded.Equations
Layer: Proofs
Purpose: Checking equations with guarded accesses. Operands and parameters are taken by position once
  their number has been checked, widths are read from the net table, the widths of a concatenation are
  added and the bounds of an extraction subtracted. None of this fails: the number of operands is that of
  the operation, a name that is found stands for a position of the table, and widths that have been
  checked are small.
Imports: Netlist.Proofs.Guarded.Access, Netlist.Proofs.Representation
Main exports: Guarded.resolve, Guarded.concat, Guarded.extract, Guarded.element, Guarded.element_eq_safe
-/
import Netlist.Proofs.Guarded.Access
import Netlist.Proofs.Representation

namespace Netlist

namespace Guarded

/-!
### Operands
-/

def width (scope : Scope) (id : NetId) : Option Nat :=
  scope.nets[id.index]?.map NetInfo.width

def resolve (eq : Equation) (scope : Scope) (operand : Operand) (expected : Option Nat) :
    ExceptT NetlistError Option Typed :=
  match operand with
  | .net name => do
    let id ← safe (scope.find name)
    let width ← width scope id
    return ⟨.net id, width⟩
  | .const value width =>
    match (width.map UInt32.toNat).or expected with
    | none => throw (.untypedConstant eq.target eq.op value)
    | some width => do
      if scope.admits width then
        if ← fits value width then return ⟨.const value, width⟩
        else throw (.valueTooWide eq.target value width)
      else throw (.invalidConstantWidth eq.target value width scope.limit)

/-- The width that an operand has by itself. -/
def ownWidth (scope : Scope) : Operand → ExceptT NetlistError Option (Option Nat)
  | .net name => do
    let id ← safe (scope.find name)
    let width ← width scope id
    return some width
  | .const _ width => return width.map UInt32.toNat

/-!
### Operations
-/

def unary (eq : Equation) (scope : Scope) (width : Nat) (kind : GateKind) (a : Operand) :
    ExceptT NetlistError Option Element := do
  let a ← resolve eq scope a (some width)
  safe (eq.expectWidth .operand width a.width)
  return .logic kind [a.source]

def binary (eq : Equation) (scope : Scope) (width : Nat) (kind : GateKind) (a b : Operand) :
    ExceptT NetlistError Option Element := do
  let a ← resolve eq scope a (some width)
  let b ← resolve eq scope b (some width)
  safe (eq.expectWidth .leftOperand width a.width)
  safe (eq.expectWidth .rightOperand width b.width)
  return .logic kind [a.source, b.source]

def mux (eq : Equation) (scope : Scope) (width : Nat) (sel a b : Operand) :
    ExceptT NetlistError Option Element := do
  let sel ← resolve eq scope sel (some 1)
  let a ← resolve eq scope a (some width)
  let b ← resolve eq scope b (some width)
  safe (eq.expectWidth .selector 1 sel.width)
  safe (eq.expectWidth .firstInput width a.width)
  safe (eq.expectWidth .secondInput width b.width)
  return .logic .mux [sel.source, a.source, b.source]

/-- A concatenation. The sum of the widths is a 32-bit number. -/
def concat (eq : Equation) (scope : Scope) (width : Nat) (hi lo : Operand) :
    ExceptT NetlistError Option Element := do
  let hiOwn ← ownWidth scope hi
  let loOwn ← ownWidth scope lo
  let hi ← resolve eq scope hi (Equation.remainder width loOwn)
  let lo ← resolve eq scope lo (Equation.remainder width hiOwn)
  let total ← add hi.width lo.width
  safe (eq.expectWidth .result width total)
  return .logic (.concat lo.width) [hi.source, lo.source]

/-- An extraction. The number of bits is computed only when the bounds are inside. -/
def extract (eq : Equation) (scope : Scope) (width : Nat) (a : Operand) (low high : Nat)
    (count : Option Nat) (inside : Nat → Bool) : ExceptT NetlistError Option Element := do
  let a ← resolve eq scope a none
  if inside a.width then
    let count ← count
    safe (eq.expectWidth .result width count)
    return .logic (.bits low) [a.source]
  else throw (.bitRange eq.target eq.op low high a.width)

def register (eq : Equation) (scope : Scope) (width : Nat) (next : Operand) :
    ExceptT NetlistError Option Element := do
  let next ← resolve eq scope next (some width)
  safe (eq.expectWidth .nextValue width next.width)
  if ← fits (eq.init.getD 0) width then return .register next.source (eq.init.getD 0)
  else throw (.valueTooWide eq.target (eq.init.getD 0) width)

def rom (eq : Equation) (scope : Scope) (width addrWidth wordWidth : Nat) (addr : Operand) :
    ExceptT NetlistError Option Element := do
  safe (eq.checkMemory scope width addrWidth wordWidth)
  let addr ← resolve eq scope addr (some addrWidth)
  safe (eq.expectWidth .address addrWidth addr.width)
  return .rom addrWidth wordWidth addr.source

def ram (eq : Equation) (scope : Scope) (width addrWidth wordWidth : Nat)
    (readAddr writeEnable writeAddr writeData : Operand) : ExceptT NetlistError Option Element := do
  safe (eq.checkMemory scope width addrWidth wordWidth)
  let readAddr ← resolve eq scope readAddr (some addrWidth)
  let writeEnable ← resolve eq scope writeEnable (some 1)
  let writeAddr ← resolve eq scope writeAddr (some addrWidth)
  let writeData ← resolve eq scope writeData (some wordWidth)
  safe (eq.expectWidth .readAddress addrWidth readAddr.width)
  safe (eq.expectWidth .writeEnable 1 writeEnable.width)
  safe (eq.expectWidth .writeAddress addrWidth writeAddr.width)
  safe (eq.expectWidth .writeData wordWidth writeData.width)
  return .ram addrWidth wordWidth readAddr.source writeEnable.source writeAddr.source writeData.source

def arg (eq : Equation) (i : Nat) : Option Operand :=
  eq.args[i]?

def param (eq : Equation) (i : Nat) : Option Nat :=
  eq.params[i]?.map UInt32.toNat

/-- The element of an equation, whose operands and parameters are taken by position. -/
def element (eq : Equation) (scope : Scope) (width : Nat) : ExceptT NetlistError Option Element := do
  match eq.op with
  | .copy => unary eq scope width .copy (← arg eq 0)
  | .not => unary eq scope width .not (← arg eq 0)
  | .and => binary eq scope width .and (← arg eq 0) (← arg eq 1)
  | .or => binary eq scope width .or (← arg eq 0) (← arg eq 1)
  | .xor => binary eq scope width .xor (← arg eq 0) (← arg eq 1)
  | .nand => binary eq scope width .nand (← arg eq 0) (← arg eq 1)
  | .nxor => binary eq scope width .nxor (← arg eq 0) (← arg eq 1)
  | .mux => mux eq scope width (← arg eq 0) (← arg eq 1) (← arg eq 2)
  | .reg => register eq scope width (← arg eq 0)
  | .ram =>
    ram eq scope width (← param eq 0) (← param eq 1) (← arg eq 0) (← arg eq 1) (← arg eq 2) (← arg eq 3)
  | .rom => rom eq scope width (← param eq 0) (← param eq 1) (← arg eq 0)
  | .concat => concat eq scope width (← arg eq 0) (← arg eq 1)
  | .select =>
    let i ← param eq 0
    extract eq scope width (← arg eq 0) i i (some 1) (fun w => i < w)
  | .slice =>
    let low ← param eq 0
    let high ← param eq 1
    let count := sub high low >>= fun distance => add distance 1
    extract eq scope width (← arg eq 0) low high count (fun w => low ≤ high && high < w)
  | .snip =>
    let low ← param eq 0
    let high ← param eq 1
    extract eq scope width (← arg eq 0) low high (sub high low) (fun w => low < high && high ≤ w)

/-!
### Agreement
-/

section Agreement

variable {scope : Scope} (hscope : scope.Proper) (eq : Equation)

include hscope

theorem width_eq_some {name : String} {id : NetId} (h : scope.find name = .ok id) :
    width scope id = some (scope.width id) := by
  obtain ⟨net, hget, -⟩ := hscope.find_eq_ok_iff.1 h
  rw [width, hget, Scope.width_of_getElem? hget]
  rfl

theorem resolve_eq_safe (operand : Operand) (expected : Option Nat) :
    resolve eq scope operand expected = safe (eq.resolve scope operand expected) := by
  cases operand with
  | net name =>
      apply safe_bind_eq
      intro id hfind
      rw [lift_bind (width_eq_some hscope hfind)]
      rfl
  | const value width =>
      rw [resolve, Equation.resolve]
      cases (width.map UInt32.toNat).or expected with
      | none => rfl
      | some w =>
          by_cases hadmits : scope.admits w = true
          · simp only [if_pos hadmits]
            rw [lift_bind (fits_eq_some value w)]
            cases Word.fits value w <;> rfl
          · simp only [if_neg hadmits]
            rfl

theorem ownWidth_eq_safe (operand : Operand) :
    ownWidth scope operand = safe (Equation.ownWidth scope operand) := by
  cases operand with
  | net name =>
      apply safe_bind_eq
      intro id hfind
      rw [lift_bind (width_eq_some hscope hfind)]
      rfl
  | const value width => rfl

theorem unary_eq_safe (w : Nat) (kind : GateKind) (a : Operand) :
    unary eq scope w kind a = safe (eq.unary scope w kind a) := by
  simp only [unary, Equation.unary, resolve_eq_safe hscope, pure_eq_safe, safe_bind]

theorem binary_eq_safe (w : Nat) (kind : GateKind) (a b : Operand) :
    binary eq scope w kind a b = safe (eq.binary scope w kind a b) := by
  simp only [binary, Equation.binary, resolve_eq_safe hscope, pure_eq_safe, safe_bind]

theorem mux_eq_safe (w : Nat) (sel a b : Operand) :
    mux eq scope w sel a b = safe (eq.mux scope w sel a b) := by
  simp only [mux, Equation.mux, resolve_eq_safe hscope, pure_eq_safe, safe_bind]

theorem concat_eq_safe (w : Nat) (hi lo : Operand) :
    concat eq scope w hi lo = safe (eq.concat scope w hi lo) := by
  simp only [concat, Equation.concat, ownWidth_eq_safe hscope, resolve_eq_safe hscope]
  apply safe_bind_eq
  intro hiOwn _
  apply safe_bind_eq
  intro loOwn _
  apply safe_bind_eq
  intro hi hhi
  apply safe_bind_eq
  intro lo hlo
  have hhiWidth := ((Equation.resolve_eq_ok_iff.1 hhi).width_mem hscope).2
  have hloWidth := ((Equation.resolve_eq_ok_iff.1 hlo).width_mem hscope).2
  have hlimit : scope.limit ≤ 64 := hscope.limit_le
  have hsum : hi.width + lo.width < UInt32.size := by
    rw [UInt32.size]
    omega
  rw [lift_bind (add_eq_some hsum)]
  simp only [pure_eq_safe, safe_bind]

/-- An extraction agrees when the number of bits can be computed for all bounds that are inside. -/
theorem extract_eq_safe (w : Nat) (a : Operand) (low high : Nat) {count : Nat} {inside : Nat → Bool}
    {guarded : Option Nat}
    (hcount : ∀ v ≤ scope.limit, inside v = true → guarded = some count) :
    extract eq scope w a low high guarded inside = safe (eq.extract scope w a low high count inside) := by
  simp only [extract, Equation.extract, resolve_eq_safe hscope]
  apply safe_bind_eq
  intro t ht
  have hwidth := ((Equation.resolve_eq_ok_iff.1 ht).width_mem hscope).2
  by_cases hinside : inside t.width = true
  · rw [if_pos hinside, if_pos hinside, lift_bind (hcount t.width hwidth hinside)]
    simp only [pure_eq_safe, safe_bind]
  · rw [if_neg hinside, if_neg hinside]
    rfl

theorem register_eq_safe (w : Nat) (next : Operand) :
    register eq scope w next = safe (eq.register scope w next) := by
  simp only [register, Equation.register, resolve_eq_safe hscope]
  apply safe_bind_eq
  intro t _
  apply safe_bind_eq
  intro _ _
  rw [lift_bind (fits_eq_some _ _)]
  cases Word.fits (eq.init.getD 0) w <;> rfl

theorem rom_eq_safe (w addrWidth wordWidth : Nat) (addr : Operand) :
    rom eq scope w addrWidth wordWidth addr = safe (eq.rom scope w addrWidth wordWidth addr) := by
  simp only [rom, Equation.rom, resolve_eq_safe hscope, pure_eq_safe, safe_bind]

theorem ram_eq_safe (w addrWidth wordWidth : Nat) (readAddr writeEnable writeAddr writeData : Operand) :
    ram eq scope w addrWidth wordWidth readAddr writeEnable writeAddr writeData =
      safe (eq.ram scope w addrWidth wordWidth readAddr writeEnable writeAddr writeData) := by
  simp only [ram, Equation.ram, resolve_eq_safe hscope, pure_eq_safe, safe_bind]

/-- Once the numbers of operands and parameters have been checked, all of them are there. -/
theorem element_eq_safe (w : Nat) (hshape : eq.checkShape = .ok ()) :
    element eq scope w = safe (eq.element scope w) := by
  obtain ⟨hargs, hparams, -⟩ := Equation.checkShape_eq_ok_iff.1 hshape
  rcases eq with ⟨target, op, args, params, init⟩
  simp only at hargs hparams
  cases op with
  | copy | not =>
      obtain ⟨a, rfl⟩ := List.length_eq_one_iff.1 hargs
      obtain rfl := List.length_eq_zero_iff.1 hparams
      exact unary_eq_safe hscope _ w _ a
  | and | or | xor | nand | nxor =>
      obtain ⟨a, b, rfl⟩ := List.length_eq_two.1 hargs
      obtain rfl := List.length_eq_zero_iff.1 hparams
      exact binary_eq_safe hscope _ w _ a b
  | mux =>
      obtain ⟨sel, a, b, rfl⟩ := List.length_eq_three.1 hargs
      obtain rfl := List.length_eq_zero_iff.1 hparams
      exact mux_eq_safe hscope _ w sel a b
  | reg =>
      obtain ⟨next, rfl⟩ := List.length_eq_one_iff.1 hargs
      obtain rfl := List.length_eq_zero_iff.1 hparams
      exact register_eq_safe hscope _ w next
  | ram =>
      rcases args with _ | ⟨readAddr, rest⟩
      · cases hargs
      obtain ⟨writeEnable, writeAddr, writeData, rfl⟩ :=
        List.length_eq_three.1 (Nat.succ.inj hargs)
      obtain ⟨addrWidth, wordWidth, rfl⟩ := List.length_eq_two.1 hparams
      exact ram_eq_safe hscope _ w addrWidth.toNat wordWidth.toNat readAddr writeEnable writeAddr
        writeData
  | rom =>
      obtain ⟨addr, rfl⟩ := List.length_eq_one_iff.1 hargs
      obtain ⟨addrWidth, wordWidth, rfl⟩ := List.length_eq_two.1 hparams
      exact rom_eq_safe hscope _ w addrWidth.toNat wordWidth.toNat addr
  | concat =>
      obtain ⟨hi, lo, rfl⟩ := List.length_eq_two.1 hargs
      obtain rfl := List.length_eq_zero_iff.1 hparams
      exact concat_eq_safe hscope _ w hi lo
  | select =>
      obtain ⟨a, rfl⟩ := List.length_eq_one_iff.1 hargs
      obtain ⟨i, rfl⟩ := List.length_eq_one_iff.1 hparams
      have hcount : ∀ v ≤ scope.limit, decide (i.toNat < v) = true → some 1 = some 1 :=
        fun _ _ _ => rfl
      exact extract_eq_safe hscope _ w a i.toNat i.toNat hcount
  | slice =>
      obtain ⟨a, rfl⟩ := List.length_eq_one_iff.1 hargs
      obtain ⟨low, high, rfl⟩ := List.length_eq_two.1 hparams
      have hcount : ∀ v ≤ scope.limit, (low.toNat ≤ high.toNat && high.toNat < v) = true →
          (sub high.toNat low.toNat >>= fun distance => add distance 1) =
            some (high.toNat - low.toNat + 1) := by
        intro v hv hinside
        -- the upper bound lies below a width that is allowed
        have hlimit : scope.limit ≤ 64 := hscope.limit_le
        simp only [Bool.and_eq_true, decide_eq_true_eq] at hinside
        rw [sub_eq_some hinside.1]
        apply add_eq_some
        rw [UInt32.size]
        omega
      exact extract_eq_safe hscope _ w a low.toNat high.toNat hcount
  | snip =>
      obtain ⟨a, rfl⟩ := List.length_eq_one_iff.1 hargs
      obtain ⟨low, high, rfl⟩ := List.length_eq_two.1 hparams
      have hcount : ∀ v ≤ scope.limit, (low.toNat < high.toNat && high.toNat ≤ v) = true →
          sub high.toNat low.toNat = some (high.toNat - low.toNat) := by
        intro v hv hinside
        simp only [Bool.and_eq_true, decide_eq_true_eq] at hinside
        exact sub_eq_some (Nat.le_of_lt hinside.1)
      exact extract_eq_safe hscope _ w a low.toNat high.toNat hcount

end Agreement

end Guarded

end Netlist
