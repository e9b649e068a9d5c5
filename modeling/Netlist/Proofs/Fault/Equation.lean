/-
Module: Netlist.Proofs.Fault.Equation
Layer: Proofs
Purpose: The faults of single equations. `Equation.Fault` lists what can be wrong with an equation, each with
  the report that names it, in terms of the equation as it is written and of declared widths alone. Whatever
  the checks report about an equation is such a fault of it, and a well typed equation has none.
Imports: Netlist.Proofs.Elaboration
Main exports: Op.places, Equation.positions, Operand.Fault, OutOfRange, Equation.Yields, Equation.Fault,
  Equation.Fault.not_wellTyped, Equation.fault_of_element, Equation.fault_of_checkShape
-/
import Netlist.Proofs.Elaboration

namespace Netlist

/-!
### What can be wrong

As in the typing rules, declared widths are a function `declared` from names, and `w` is the width of the
target.
-/

/-- The names of the operands that an operation wants as wide as their positions say. Concatenations and
    extractions take operands of any width and compare the result. -/
def Op.places : Op → List Place
  | .copy | .not => [.operand]
  | .and | .or | .xor | .nand | .nxor => [.leftOperand, .rightOperand]
  | .mux => [.selector, .firstInput, .secondInput]
  | .reg => [.nextValue]
  | .rom => [.address]
  | .ram => [.readAddress, .writeEnable, .writeAddress, .writeData]
  | .concat | .select | .slice | .snip => []

/-- The width that each operand of an equation is asked for by its position, if it is asked for one. -/
def Equation.positions (declared : String → Option Nat) (w : Nat) (eq : Equation) : List (Option Nat) :=
  match eq.op, eq.args, eq.params with
  | .copy, _, _ | .not, _, _ | .reg, _, _ => [some w]
  | .and, _, _ | .or, _, _ | .xor, _, _ | .nand, _, _ | .nxor, _, _ => [some w, some w]
  | .mux, _, _ => [some 1, some w, some w]
  | .concat, [hi, lo], _ => [lo.leaves? declared w, hi.leaves? declared w]
  | .select, _, _ | .slice, _, _ | .snip, _, _ => [none]
  | .rom, _, [addrWidth, _] => [some addrWidth.toNat]
  | .ram, _, [addrWidth, wordWidth] =>
    [some addrWidth.toNat, some 1, some addrWidth.toNat, some wordWidth.toNat]
  | _, _, _ => []

/-- What is wrong with an operand by itself, in an equation `target = op …`. -/
inductive Operand.Fault (declared : String → Option Nat) (limit : Nat) (target : String) (op : Op)
    (position : Option Nat) : Operand → NetlistError → Prop where
  | unknown {name : String} (undeclared : declared name = none) :
      Fault declared limit target op position (.net name) (.unknownNet name)
  | untyped {value : Word} (unasked : position = none) :
      Fault declared limit target op position (.const value none) (.untypedConstant target op value)
  | width {value : Word} {width : Option UInt32} {v : Nat}
      (given : (width.map UInt32.toNat).or position = some v) (forbidden : v = 0 ∨ limit < v) :
      Fault declared limit target op position (.const value width)
        (.invalidConstantWidth target value v limit)
  | tooWide {value : Word} {width : Option UInt32} {v : Nat}
      (given : (width.map UInt32.toNat).or position = some v) (exceeds : 2 ^ v ≤ value.toNat) :
      Fault declared limit target op position (.const value width) (.valueTooWide target value v)

/-- Operations whose parameters, the bounds `low` and `high`, are out of order or reach past the top bit of
    an operand of width `v`. The upper bound of a snip is not part of its range, so equal bounds leave
    nothing. -/
inductive OutOfRange (v : Nat) : Op → List UInt32 → Nat → Nat → Prop where
  | select {i : UInt32} (past : v ≤ i.toNat) : OutOfRange v .select [i] i.toNat i.toNat
  | slice {low high : UInt32} (outside : high.toNat < low.toNat ∨ v ≤ high.toNat) :
      OutOfRange v .slice [low, high] low.toNat high.toNat
  | snip {low high : UInt32} (outside : high.toNat ≤ low.toNat ∨ v < high.toNat) :
      OutOfRange v .snip [low, high] low.toNat high.toNat

/-- A concatenation or an extraction has a result of a width of its own. -/
inductive Equation.Yields (declared : String → Option Nat) (limit w : Nat) (eq : Equation) :
    Nat → Prop where
  | concat {hi lo : Operand} {hw lw : Nat} (kind : eq.op = .concat) (operands : eq.args = [hi, lo])
      (high : hi.HasWidth declared limit (lo.leaves? declared w) hw)
      (low : lo.HasWidth declared limit (hi.leaves? declared w) lw) :
      Yields declared limit w eq (hw + lw)
  | extract {a : Operand} {v low count : Nat} (operands : eq.args = [a])
      (operand : a.HasWidth declared limit none v) (bits : Extracts v eq.op eq.params low count) :
      Yields declared limit w eq count

/-- What is wrong with an equation for a declared target. -/
inductive Equation.Fault (declared : String → Option Nat) (limit w : Nat) (eq : Equation) :
    NetlistError → Prop where
  | operandCount (differs : eq.args.length ≠ eq.op.signature.1) :
      Fault declared limit w eq
        (.arity eq.target eq.op .operands eq.op.signature.1 eq.args.length)
  | parameterCount (differs : eq.params.length ≠ eq.op.signature.2) :
      Fault declared limit w eq
        (.arity eq.target eq.op .parameters eq.op.signature.2 eq.params.length)
  | unexpectedInit (given : eq.init.isSome = true) (kind : eq.op ≠ .reg) :
      Fault declared limit w eq (.unexpectedInit eq.target eq.op)
  | memoryWidth {p : UInt32} (kind : eq.op = .rom ∨ eq.op = .ram) (parameter : p ∈ eq.params)
      (forbidden : p.toNat = 0 ∨ limit < p.toNat) :
      Fault declared limit w eq (.invalidWidth eq.target p.toNat limit)
  | operand {i : Nat} {a : Operand} {position : Option Nat} {fault : NetlistError}
      (operand : eq.args[i]? = some a) (asked : (eq.positions declared w)[i]? = some position)
      (wrong : a.Fault declared limit eq.target eq.op position fault) : Fault declared limit w eq fault
  | operandWidth {i : Nat} {a : Operand} {place : Place} {expected found : Nat}
      (operand : eq.args[i]? = some a) (named : eq.op.places[i]? = some place)
      (asked : (eq.positions declared w)[i]? = some (some expected))
      (has : a.HasWidth declared limit (some expected) found) (differs : expected ≠ found) :
      Fault declared limit w eq (.widthMismatch eq.target eq.op place expected found)
  | resultWidth {found : Nat} (yields : eq.Yields declared limit w found) (differs : w ≠ found) :
      Fault declared limit w eq (.widthMismatch eq.target eq.op .result w found)
  | wordWidth {addrWidth wordWidth : UInt32} (kind : eq.op = .rom ∨ eq.op = .ram)
      (parameters : eq.params = [addrWidth, wordWidth]) (differs : wordWidth.toNat ≠ w) :
      Fault declared limit w eq (.widthMismatch eq.target eq.op .word wordWidth.toNat w)
  | bitRange {a : Operand} {v low high : Nat} (operands : eq.args = [a])
      (operand : a.HasWidth declared limit none v) (bounds : OutOfRange v eq.op eq.params low high) :
      Fault declared limit w eq (.bitRange eq.target eq.op low high v)
  | init {value : Word} (kind : eq.op = .reg) (given : eq.init = some value)
      (exceeds : 2 ^ w ≤ value.toNat) : Fault declared limit w eq (.valueTooWide eq.target value w)

/-!
### Well typed equations have no fault
-/

section WellTyped

variable {declared : String → Option Nat} {limit w : Nat} {eq : Equation} {fault : NetlistError}

theorem Operand.HasWidth.unique {position : Option Nat} {a : Operand} {v v' : Nat}
    (h : a.HasWidth declared limit position v) (h' : a.HasWidth declared limit position v') : v = v' := by
  cases h with
  | net known =>
      cases h' with
      | net known' => exact Option.some.inj (known.symm.trans known')
  | const given =>
      cases h' with
      | const given' => exact Option.some.inj (given.symm.trans given')

/-- An operand with a fault has no width. -/
theorem Operand.Fault.not_hasWidth {target : String} {op : Op} {position : Option Nat} {a : Operand}
    (h : a.Fault declared limit target op position fault) (v : Nat) :
    ¬ a.HasWidth declared limit position v := by
  intro hwidth
  cases h with
  | unknown undeclared =>
      cases hwidth with
      | net known => simp [undeclared] at known
  | untyped unasked =>
      cases hwidth with
      | const given => simp [unasked] at given
  | width given forbidden =>
      cases hwidth with
      | const given' pos le =>
          cases given.symm.trans given'
          omega
  | tooWide given exceeds =>
      cases hwidth with
      | const given' _ _ fits =>
          cases given.symm.trans given'
          omega

theorem Extracts.unique {v low low' count count' : Nat} {op : Op} {params : List UInt32}
    (h : Extracts v op params low count) (h' : Extracts v op params low' count') : count = count' := by
  cases h <;> cases h' <;> rfl

theorem Extracts.kind {v low count : Nat} {op : Op} {params : List UInt32}
    (h : Extracts v op params low count) : op = .select ∨ op = .slice ∨ op = .snip := by
  cases h <;> simp

theorem OutOfRange.kind {v low high : Nat} {op : Op} {params : List UInt32}
    (h : OutOfRange v op params low high) : op = .select ∨ op = .slice ∨ op = .snip := by
  cases h <;> simp

theorem OutOfRange.not_extracts {v low high low' count : Nat} {op : Op} {params : List UInt32}
    (h : OutOfRange v op params low high) : ¬ Extracts v op params low' count := by
  intro hextracts
  cases h <;> cases hextracts <;> omega

namespace Equation

/-- The operands of a well typed equation have widths, and where the operation compares them they are those
    of the positions. -/
theorem WellTyped.operands (h : eq.WellTyped declared limit w) :
    List.Forall₂ (fun a position => ∃ v, a.HasWidth declared limit position v ∧
      (eq.op.places ≠ [] → position = some v)) eq.args (eq.positions declared w) := by
  have compared : ∀ {a : Operand} {v : Nat}, a.HasWidth declared limit (some v) v →
      ∃ v', a.HasWidth declared limit (some v) v' ∧ (eq.op.places ≠ [] → some v = some v') :=
    fun operand => ⟨_, operand, fun _ => rfl⟩
  cases h with
  | unary kind operand => rcases kind with rfl | rfl <;> exact .cons (compared operand) .nil
  | binary kind left right =>
      rcases kind with rfl | rfl | rfl | rfl | rfl <;>
        exact .cons (compared left) (.cons (compared right) .nil)
  | mux selector first second =>
      exact .cons (compared selector) (.cons (compared first) (.cons (compared second) .nil))
  | concat high low sum =>
      exact .cons ⟨_, high, fun h => absurd rfl h⟩ (.cons ⟨_, low, fun h => absurd rfl h⟩ .nil)
  | extract operand bits => cases bits <;> exact .cons ⟨_, operand, fun h => absurd rfl h⟩ .nil
  | register operand fits => exact .cons (compared operand) .nil
  | rom pos le wordPos wordLe word address => exact .cons (compared address) .nil
  | ram pos le wordPos wordLe word read enable write data =>
      exact .cons (compared read) (.cons (compared enable) (.cons (compared write)
        (.cons (compared data) .nil)))

theorem WellTyped.operand (h : eq.WellTyped declared limit w) {i : Nat} {a : Operand}
    {position : Option Nat} (ha : eq.args[i]? = some a)
    (hposition : (eq.positions declared w)[i]? = some position) :
    ∃ v, a.HasWidth declared limit position v ∧ (eq.op.places ≠ [] → position = some v) := by
  obtain ⟨position', hposition', hv⟩ := forall₂_getElem?_left h.operands ha
  cases hposition.symm.trans hposition'
  exact hv

/-- What the rule of an operation says beyond the widths of single operands. -/
theorem WellTyped.rule (h : eq.WellTyped declared limit w) :
    match eq.op with
    | .concat => ∃ hi lo hw lw, eq.args = [hi, lo] ∧
        hi.HasWidth declared limit (lo.leaves? declared w) hw ∧
        lo.HasWidth declared limit (hi.leaves? declared w) lw ∧ hw + lw = w
    | .select | .slice | .snip => ∃ a v low, eq.args = [a] ∧ a.HasWidth declared limit none v ∧
        Extracts v eq.op eq.params low w
    | .reg => (eq.init.getD 0).toNat < 2 ^ w
    | .rom | .ram => ∃ addrWidth wordWidth : UInt32, eq.params = [addrWidth, wordWidth] ∧
        wordWidth.toNat = w ∧ ∀ p ∈ eq.params, 0 < p.toNat ∧ p.toNat ≤ limit
    | _ => True := by
  cases h with
  | unary kind => rcases kind with rfl | rfl <;> trivial
  | binary kind => rcases kind with rfl | rfl | rfl | rfl | rfl <;> trivial
  | mux => trivial
  | concat high low sum => exact ⟨_, _, _, _, rfl, high, low, sum⟩
  | extract operand bits =>
      cases bits with
      | select inside => exact ⟨_, _, _, rfl, operand, .select inside⟩
      | slice ordered inside => exact ⟨_, _, _, rfl, operand, .slice ordered inside⟩
      | snip ordered inside => exact ⟨_, _, _, rfl, operand, .snip ordered inside⟩
  | register operand fits => exact fits
  | rom pos le wordPos wordLe word | ram pos le wordPos wordLe word =>
      exact ⟨_, _, rfl, word, by simp [pos, le, wordPos, wordLe]⟩

theorem WellTyped.memory (h : eq.WellTyped declared limit w) (kind : eq.op = .rom ∨ eq.op = .ram) :
    ∃ addrWidth wordWidth : UInt32, eq.params = [addrWidth, wordWidth] ∧ wordWidth.toNat = w ∧
      ∀ p ∈ eq.params, 0 < p.toNat ∧ p.toNat ≤ limit := by
  have hrule := h.rule
  rcases kind with kind | kind <;> rw [kind] at hrule <;> exact hrule

theorem WellTyped.extraction (h : eq.WellTyped declared limit w) {a : Operand} {v : Nat}
    (kind : eq.op = .select ∨ eq.op = .slice ∨ eq.op = .snip) (operands : eq.args = [a])
    (operand : a.HasWidth declared limit none v) : ∃ low, Extracts v eq.op eq.params low w := by
  have hrule : ∃ a v low, eq.args = [a] ∧ a.HasWidth declared limit none v ∧
      Extracts v eq.op eq.params low w := by
    have hrule := h.rule
    rcases kind with kind | kind | kind <;> simp only [kind] at hrule ⊢ <;> exact hrule
  obtain ⟨a', v', low, operands', operand', bits⟩ := hrule
  cases operands.symm.trans operands'
  cases operand.unique operand'
  exact ⟨low, bits⟩

/-- A concatenation or an extraction yields what a well typed one has to yield. -/
theorem WellTyped.yields (h : eq.WellTyped declared limit w) {found : Nat}
    (hyields : eq.Yields declared limit w found) : found = w := by
  cases hyields with
  | concat kind operands high low =>
      have hrule := h.rule
      rw [kind] at hrule
      obtain ⟨hi, lo, hw, lw, operands', high', low', sum⟩ := hrule
      cases operands.symm.trans operands'
      rw [high.unique high', low.unique low', sum]
  | extract operands operand bits =>
      obtain ⟨low, bits'⟩ := h.extraction bits.kind operands operand
      exact bits.unique bits'

/-- A well typed equation has no fault. -/
theorem Fault.not_wellTyped (h : eq.Fault declared limit w fault) : ¬ eq.WellTyped declared limit w := by
  intro htyped
  obtain ⟨hargs, hparams, hinit⟩ := htyped.shape
  cases h with
  | operandCount differs => exact differs hargs
  | parameterCount differs => exact differs hparams
  | unexpectedInit given kind => exact kind (hinit given)
  | memoryWidth kind parameter forbidden =>
      obtain ⟨_, _, -, -, hallowed⟩ := htyped.memory kind
      have := hallowed _ parameter
      omega
  | operand operand asked wrong =>
      obtain ⟨v, hv, -⟩ := htyped.operand operand asked
      exact wrong.not_hasWidth v hv
  | operandWidth operand named asked has differs =>
      obtain ⟨v, hv, hposition⟩ := htyped.operand operand asked
      have hplaces : eq.op.places ≠ [] := List.ne_nil_of_mem (List.mem_of_getElem? named)
      cases hposition hplaces
      exact differs (hv.unique has)
  | resultWidth yields differs => exact differs (htyped.yields yields).symm
  | wordWidth kind parameters differs =>
      obtain ⟨_, _, hparameters, hword, -⟩ := htyped.memory kind
      cases parameters.symm.trans hparameters
      exact differs hword
  | bitRange operands operand bounds =>
      obtain ⟨low, bits⟩ := htyped.extraction bounds.kind operands operand
      exact bounds.not_extracts bits
  | init kind given exceeds =>
      have hrule := htyped.rule
      rw [kind] at hrule
      simp only [given, Option.getD_some] at hrule
      omega

end Equation

end WellTyped

/-!
### Reports are faults
-/

namespace Equation

variable {scope : Scope} {eq : Equation} {w : Nat} {fault : NetlistError}

theorem find_eq_error_iff {name : String} :
    scope.find name = .error fault ↔ declaredIn scope name = none ∧ fault = .unknownNet name := by
  rw [Scope.find, declaredIn]
  cases findNet? scope.nets name with
  | none => simp [eq_comm]
  | some id => simp

theorem expectWidth_eq_error_iff {what : Place} {expected found : Nat} :
    eq.expectWidth what expected found = .error fault ↔
      expected ≠ found ∧ fault = .widthMismatch eq.target eq.op what expected found := by
  rw [expectWidth]
  split
  · next h => simp [h]
  · next h => simp [h, eq_comm]

theorem not_admits {v : Nat} (h : ¬ scope.admits v = true) : v = 0 ∨ scope.limit < v := by
  rw [admits_iff] at h
  omega

/-- What is reported when an operand is resolved is a fault of the operand. -/
theorem operandFault_of_resolve {a : Operand} {position : Option Nat}
    (h : eq.resolve scope a position = .error fault) :
    a.Fault (declaredIn scope) scope.limit eq.target eq.op position fault := by
  cases a with
  | net name =>
      rw [resolve, bind_eq_error_iff] at h
      rcases h with h | ⟨_, -, ⟨⟩⟩
      obtain ⟨hundeclared, rfl⟩ := find_eq_error_iff.1 h
      exact .unknown hundeclared
  | const value width =>
      rw [resolve] at h
      split at h
      · next hnone =>
          cases h
          obtain ⟨hwidth, hposition⟩ := Option.or_eq_none_iff.1 hnone
          cases Option.map_eq_none_iff.1 hwidth
          exact .untyped hposition
      · next v hsome =>
          split at h
          · split at h
            · cases h
            · next hfits =>
                cases h
                rw [Word.fits_iff] at hfits
                exact .tooWide hsome (Nat.le_of_not_lt hfits)
          · next hadmits =>
              cases h
              exact .width hsome (not_admits hadmits)

section Operands

variable {args : List Operand} {places : List Place} {positions : List (Option Nat)} {a : Operand}

/-- Operands are given by their numbers, so that the lists of an operation say what is expected of each. -/
theorem fault_of_resolve {position : Option Nat} (hargs : eq.args = args)
    (hpositions : eq.positions (declaredIn scope) w = positions) (i : Nat) (ha : args[i]? = some a)
    (hposition : positions[i]? = some position) (h : eq.resolve scope a position = .error fault) :
    eq.Fault (declaredIn scope) scope.limit w fault :=
  .operand (hargs ▸ ha) (hpositions ▸ hposition) (operandFault_of_resolve h)

/-- What is reported when the width of an operand is compared is a fault of the equation. -/
theorem fault_of_expectWidth {place : Place} {expected : Nat} {t : Typed} (hargs : eq.args = args)
    (hplaces : eq.op.places = places) (hpositions : eq.positions (declaredIn scope) w = positions)
    (i : Nat) (ha : args[i]? = some a) (hplace : places[i]? = some place)
    (hposition : positions[i]? = some (some expected)) (ht : eq.resolve scope a (some expected) = .ok t)
    (h : eq.expectWidth place expected t.width = .error fault) :
    eq.Fault (declaredIn scope) scope.limit w fault := by
  obtain ⟨hdiffers, rfl⟩ := expectWidth_eq_error_iff.1 h
  exact .operandWidth (hargs ▸ ha) (hplaces ▸ hplace) (hpositions ▸ hposition)
    (hasWidth_iff.2 ⟨_, resolve_eq_ok_iff.1 ht⟩) hdiffers

end Operands

theorem fault_of_checkShape (h : eq.checkShape = .error fault) :
    eq.Fault (declaredIn scope) scope.limit w fault := by
  rw [checkShape] at h
  simp only at h
  split at h
  · next hdiffers =>
      cases h
      exact .operandCount hdiffers
  · split at h
    · next hdiffers =>
        cases h
        exact .parameterCount hdiffers
    · split at h
      · next hinit =>
          cases h
          exact .unexpectedInit hinit.1 hinit.2
      · cases h

/-!
Each operation resolves its operands first and compares widths then.
-/

theorem fault_of_unary {kind : GateKind} {a : Operand} (hargs : eq.args = [a])
    (hplaces : eq.op.places = [.operand]) (hpositions : eq.positions (declaredIn scope) w = [some w])
    (h : eq.unary scope w kind a = .error fault) : eq.Fault (declaredIn scope) scope.limit w fault := by
  simp only [unary, bind_eq_error_iff] at h
  rcases h with h | ⟨ta, ha, h | ⟨_, -, ⟨⟩⟩⟩
  · exact fault_of_resolve hargs hpositions 0 rfl rfl h
  · exact fault_of_expectWidth hargs hplaces hpositions 0 rfl rfl rfl ha h

theorem fault_of_binary {kind : GateKind} {a b : Operand} (hargs : eq.args = [a, b])
    (hplaces : eq.op.places = [.leftOperand, .rightOperand])
    (hpositions : eq.positions (declaredIn scope) w = [some w, some w])
    (h : eq.binary scope w kind a b = .error fault) : eq.Fault (declaredIn scope) scope.limit w fault := by
  simp only [binary, bind_eq_error_iff] at h
  rcases h with h | ⟨ta, ha, h | ⟨tb, hb, h | ⟨_, -, h | ⟨_, -, ⟨⟩⟩⟩⟩⟩
  · exact fault_of_resolve hargs hpositions 0 rfl rfl h
  · exact fault_of_resolve hargs hpositions 1 rfl rfl h
  · exact fault_of_expectWidth hargs hplaces hpositions 0 rfl rfl rfl ha h
  · exact fault_of_expectWidth hargs hplaces hpositions 1 rfl rfl rfl hb h

theorem fault_of_mux {sel a b : Operand} (hargs : eq.args = [sel, a, b])
    (hplaces : eq.op.places = [.selector, .firstInput, .secondInput])
    (hpositions : eq.positions (declaredIn scope) w = [some 1, some w, some w])
    (h : eq.mux scope w sel a b = .error fault) : eq.Fault (declaredIn scope) scope.limit w fault := by
  simp only [mux, bind_eq_error_iff] at h
  rcases h with h | ⟨ts, hs, h | ⟨ta, ha, h | ⟨tb, hb, h | ⟨_, -, h | ⟨_, -, h | ⟨_, -, ⟨⟩⟩⟩⟩⟩⟩⟩
  · exact fault_of_resolve hargs hpositions 0 rfl rfl h
  · exact fault_of_resolve hargs hpositions 1 rfl rfl h
  · exact fault_of_resolve hargs hpositions 2 rfl rfl h
  · exact fault_of_expectWidth hargs hplaces hpositions 0 rfl rfl rfl hs h
  · exact fault_of_expectWidth hargs hplaces hpositions 1 rfl rfl rfl ha h
  · exact fault_of_expectWidth hargs hplaces hpositions 2 rfl rfl rfl hb h

/-- A register reports its operand, or a power-on value that it was given. -/
theorem fault_of_register {next : Operand} (hop : eq.op = .reg) (hargs : eq.args = [next])
    (hplaces : eq.op.places = [.nextValue]) (hpositions : eq.positions (declaredIn scope) w = [some w])
    (h : eq.register scope w next = .error fault) : eq.Fault (declaredIn scope) scope.limit w fault := by
  simp only [register, bind_eq_error_iff] at h
  rcases h with h | ⟨tn, hn, h | ⟨_, -, h⟩⟩
  · exact fault_of_resolve hargs hpositions 0 rfl rfl h
  · exact fault_of_expectWidth hargs hplaces hpositions 0 rfl rfl rfl hn h
  · split at h
    · cases h
    · next hfits =>
        cases h
        rw [Word.fits_iff] at hfits
        cases hinit : eq.init with
        | none =>
            -- the power-on value by default is zero, which fits any width
            rw [hinit] at hfits
            exact absurd (Nat.two_pow_pos w) hfits
        | some value =>
            rw [hinit] at hfits
            exact .init hop hinit (Nat.le_of_not_lt hfits)

theorem fault_of_checkMemory {addrWidth wordWidth : UInt32} (hop : eq.op = .rom ∨ eq.op = .ram)
    (hparams : eq.params = [addrWidth, wordWidth])
    (h : eq.checkMemory scope w addrWidth.toNat wordWidth.toNat = .error fault) :
    eq.Fault (declaredIn scope) scope.limit w fault := by
  rw [checkMemory] at h
  split at h
  · split at h
    · obtain ⟨hdiffers, rfl⟩ := expectWidth_eq_error_iff.1 h
      exact .wordWidth hop hparams hdiffers
    · next hadmits =>
        cases h
        exact .memoryWidth hop (by simp [hparams]) (not_admits hadmits)
  · next hadmits =>
      cases h
      exact .memoryWidth hop (by simp [hparams]) (not_admits hadmits)

theorem fault_of_rom {addr : Operand} {addrWidth wordWidth : UInt32} (hop : eq.op = .rom)
    (hparams : eq.params = [addrWidth, wordWidth]) (hargs : eq.args = [addr])
    (hplaces : eq.op.places = [.address])
    (hpositions : eq.positions (declaredIn scope) w = [some addrWidth.toNat])
    (h : eq.rom scope w addrWidth.toNat wordWidth.toNat addr = .error fault) :
    eq.Fault (declaredIn scope) scope.limit w fault := by
  simp only [rom, bind_eq_error_iff] at h
  rcases h with h | ⟨_, -, h | ⟨ta, ha, h | ⟨_, -, ⟨⟩⟩⟩⟩
  · exact fault_of_checkMemory (.inl hop) hparams h
  · exact fault_of_resolve hargs hpositions 0 rfl rfl h
  · exact fault_of_expectWidth hargs hplaces hpositions 0 rfl rfl rfl ha h

theorem fault_of_ram {readAddr writeEnable writeAddr writeData : Operand} {addrWidth wordWidth : UInt32}
    (hop : eq.op = .ram) (hparams : eq.params = [addrWidth, wordWidth])
    (hargs : eq.args = [readAddr, writeEnable, writeAddr, writeData])
    (hplaces : eq.op.places = [.readAddress, .writeEnable, .writeAddress, .writeData])
    (hpositions : eq.positions (declaredIn scope) w =
      [some addrWidth.toNat, some 1, some addrWidth.toNat, some wordWidth.toNat])
    (h : eq.ram scope w addrWidth.toNat wordWidth.toNat readAddr writeEnable writeAddr writeData =
      .error fault) : eq.Fault (declaredIn scope) scope.limit w fault := by
  simp only [ram, bind_eq_error_iff] at h
  rcases h with h | ⟨_, -, h | ⟨tr, hr, h | ⟨te, he, h | ⟨tw, hw, h | ⟨td, hd, h | ⟨_, -, h | ⟨_, -, h |
    ⟨_, -, h | ⟨_, -, ⟨⟩⟩⟩⟩⟩⟩⟩⟩⟩⟩
  · exact fault_of_checkMemory (.inr hop) hparams h
  · exact fault_of_resolve hargs hpositions 0 rfl rfl h
  · exact fault_of_resolve hargs hpositions 1 rfl rfl h
  · exact fault_of_resolve hargs hpositions 2 rfl rfl h
  · exact fault_of_resolve hargs hpositions 3 rfl rfl h
  · exact fault_of_expectWidth hargs hplaces hpositions 0 rfl rfl rfl hr h
  · exact fault_of_expectWidth hargs hplaces hpositions 1 rfl rfl rfl he h
  · exact fault_of_expectWidth hargs hplaces hpositions 2 rfl rfl rfl hw h
  · exact fault_of_expectWidth hargs hplaces hpositions 3 rfl rfl rfl hd h

/-- An operand whose own width cannot be told cannot be resolved at any position. -/
theorem resolve_of_ownWidth {a : Operand} (position : Option Nat) (h : ownWidth scope a = .error fault) :
    eq.resolve scope a position = .error fault := by
  cases a with
  | net name =>
      rw [ownWidth, bind_eq_error_iff] at h
      rcases h with h | ⟨_, -, ⟨⟩⟩
      rw [resolve, bind_eq_error_iff]
      exact .inl h
  | const value width => cases h

theorem fault_of_concat {hi lo : Operand} (hop : eq.op = .concat) (hargs : eq.args = [hi, lo])
    (hpositions : eq.positions (declaredIn scope) w =
      [lo.leaves? (declaredIn scope) w, hi.leaves? (declaredIn scope) w])
    (h : eq.concat scope w hi lo = .error fault) : eq.Fault (declaredIn scope) scope.limit w fault := by
  simp only [concat, bind_eq_error_iff] at h
  rcases h with h | ⟨hiOwn, hhi, h | ⟨loOwn, hlo, h⟩⟩
  · exact fault_of_resolve hargs hpositions 0 rfl rfl (resolve_of_ownWidth _ h)
  · exact fault_of_resolve hargs hpositions 1 rfl rfl (resolve_of_ownWidth _ h)
  obtain ⟨-, rfl⟩ := ownWidth_eq_ok_iff.1 hhi
  obtain ⟨-, rfl⟩ := ownWidth_eq_ok_iff.1 hlo
  simp only [remainder_width?] at h
  rcases h with h | ⟨th, hth, h | ⟨tl, htl, h | ⟨_, -, ⟨⟩⟩⟩⟩
  · exact fault_of_resolve hargs hpositions 0 rfl rfl h
  · exact fault_of_resolve hargs hpositions 1 rfl rfl h
  · obtain ⟨hdiffers, rfl⟩ := expectWidth_eq_error_iff.1 h
    exact .resultWidth (.concat hop hargs (hasWidth_iff.2 ⟨_, resolve_eq_ok_iff.1 hth⟩)
      (hasWidth_iff.2 ⟨_, resolve_eq_ok_iff.1 htl⟩)) hdiffers

/-- An extraction reports its operand, its bounds or the width of its result. -/
theorem fault_of_extract {a : Operand} {low high count : Nat} {inside : Nat → Bool}
    (hargs : eq.args = [a]) (hpositions : eq.positions (declaredIn scope) w = [none])
    (hin : ∀ v, inside v = true → Extracts v eq.op eq.params low count)
    (hout : ∀ v, inside v = false → OutOfRange v eq.op eq.params low high)
    (h : eq.extract scope w a low high count inside = .error fault) :
    eq.Fault (declaredIn scope) scope.limit w fault := by
  simp only [extract, bind_eq_error_iff] at h
  rcases h with h | ⟨ta, ha, h⟩
  · exact fault_of_resolve hargs hpositions 0 rfl rfl h
  have hwidth := hasWidth_iff.2 ⟨_, resolve_eq_ok_iff.1 ha⟩
  split at h
  · next hinside =>
      rcases bind_eq_error_iff.1 h with h | ⟨_, -, ⟨⟩⟩
      obtain ⟨hdiffers, rfl⟩ := expectWidth_eq_error_iff.1 h
      exact .resultWidth (.extract hargs hwidth (hin _ hinside)) hdiffers
  · next houtside =>
      cases h
      exact .bitRange hargs hwidth (hout _ (by simpa using houtside))

/-- What is reported about an equation of the right shape is a fault of it. -/
theorem fault_of_element (hshape : eq.checkShape = .ok ()) (h : eq.element scope w = .error fault) :
    eq.Fault (declaredIn scope) scope.limit w fault := by
  obtain ⟨hargs, hparams, -⟩ := checkShape_eq_ok_iff.1 hshape
  rcases eq with ⟨target, op, args, params, init⟩
  simp only at hargs hparams
  cases op with
  | copy | not =>
      obtain ⟨a, rfl⟩ := List.length_eq_one_iff.1 hargs
      obtain rfl := List.length_eq_zero_iff.1 hparams
      exact fault_of_unary rfl rfl rfl h
  | and | or | xor | nand | nxor =>
      obtain ⟨a, b, rfl⟩ := List.length_eq_two.1 hargs
      obtain rfl := List.length_eq_zero_iff.1 hparams
      exact fault_of_binary rfl rfl rfl h
  | mux =>
      obtain ⟨sel, a, b, rfl⟩ := List.length_eq_three.1 hargs
      obtain rfl := List.length_eq_zero_iff.1 hparams
      exact fault_of_mux rfl rfl rfl h
  | reg =>
      obtain ⟨next, rfl⟩ := List.length_eq_one_iff.1 hargs
      obtain rfl := List.length_eq_zero_iff.1 hparams
      exact fault_of_register rfl rfl rfl rfl h
  | ram =>
      rcases args with _ | ⟨readAddr, rest⟩
      · cases hargs
      obtain ⟨writeEnable, writeAddr, writeData, rfl⟩ := List.length_eq_three.1 (Nat.succ.inj hargs)
      obtain ⟨addrWidth, wordWidth, rfl⟩ := List.length_eq_two.1 hparams
      exact fault_of_ram rfl rfl rfl rfl rfl h
  | rom =>
      obtain ⟨addr, rfl⟩ := List.length_eq_one_iff.1 hargs
      obtain ⟨addrWidth, wordWidth, rfl⟩ := List.length_eq_two.1 hparams
      exact fault_of_rom rfl rfl rfl rfl rfl h
  | concat =>
      obtain ⟨hi, lo, rfl⟩ := List.length_eq_two.1 hargs
      obtain rfl := List.length_eq_zero_iff.1 hparams
      exact fault_of_concat rfl rfl rfl h
  | select =>
      obtain ⟨a, rfl⟩ := List.length_eq_one_iff.1 hargs
      obtain ⟨i, rfl⟩ := List.length_eq_one_iff.1 hparams
      simp only [element, List.map_cons, List.map_nil] at h
      refine fault_of_extract rfl rfl ?_ ?_ h
      · exact fun v hinside => .select (by simpa using hinside)
      · exact fun v houtside => .select (by simpa using houtside)
  | slice =>
      obtain ⟨a, rfl⟩ := List.length_eq_one_iff.1 hargs
      obtain ⟨low, high, rfl⟩ := List.length_eq_two.1 hparams
      simp only [element, List.map_cons, List.map_nil] at h
      refine fault_of_extract rfl rfl ?_ ?_ h
      · intro v hinside
        simp only [Bool.and_eq_true, decide_eq_true_eq] at hinside
        exact .slice hinside.1 hinside.2
      · intro v houtside
        simp only [Bool.and_eq_false_iff, decide_eq_false_iff_not] at houtside
        exact .slice (by omega)
  | snip =>
      obtain ⟨a, rfl⟩ := List.length_eq_one_iff.1 hargs
      obtain ⟨low, high, rfl⟩ := List.length_eq_two.1 hparams
      simp only [element, List.map_cons, List.map_nil] at h
      refine fault_of_extract rfl rfl ?_ ?_ h
      · intro v hinside
        simp only [Bool.and_eq_true, decide_eq_true_eq] at hinside
        exact .snip hinside.1 hinside.2
      · intro v houtside
        simp only [Bool.and_eq_false_iff, decide_eq_false_iff_not] at houtside
        exact .snip (by omega)

end Equation

end Netlist
