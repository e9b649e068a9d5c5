/-
Module: Netlist.Proofs.ConstantWidth
Layer: Proofs
Purpose: The widths of constants. A constant may be written with a width or bare, and the position of a bare
  one asks for its width. `Equation.InfersAt` says which positions ask for one. At such a position exactly
  one width can be written at a constant of a description that compiles, namely the one that is asked for,
  and with it or with none the description compiles to the same circuit.
Imports: Netlist.Proofs.Fault.Equation, Netlist.Proofs.WellFormed
Main exports: Description.withWidth, Equation.InfersAt, Equation.WellTyped.asked,
  Equation.Elaborates.of_args, Description.compile_withWidth_iff,
  Description.constant_width_inferred_exactly
-/
import Netlist.Proofs.Fault.Equation
import Netlist.Proofs.WellFormed

namespace Netlist

/-!
### Writing widths at constants
-/

/-- An operand with another width, or none, written at it. Only constants have one. -/
def Operand.withWidth (width : Option UInt32) : Operand → Operand
  | .net name => .net name
  | .const value _ => .const value width

/-- An equation with another width, or none, written at its operand `i`. -/
def Equation.withWidth (eq : Equation) (i : Nat) (width : Option UInt32) : Equation :=
  { eq with args := eq.args.modify i (Operand.withWidth width) }

/-- A description with another width, or none, written at operand `i` of its equation `k`. -/
def Description.withWidth (d : Description) (k i : Nat) (width : Option UInt32) : Description :=
  { d with equations := d.equations.modify k (fun eq => eq.withWidth i width) }

/-- The position of operand `i` asks for a width: the operation is no extraction, and the other operand of
    a concatenation, whose operands are 0 and 1, is no bare constant. -/
structure Equation.InfersAt (eq : Equation) (i : Nat) : Prop where
  kind : eq.op ≠ .select ∧ eq.op ≠ .slice ∧ eq.op ≠ .snip
  other : eq.op = .concat → ∀ value, eq.args[1 - i]? ≠ some (.const value none)

/-!
### Operands with a width of their own
-/

section Operands

variable {declared : String → Option Nat} {limit w : Nat} {position : Option Nat} {a : Operand}

/-- An operand that is no bare constant has its width by itself. -/
theorem Operand.HasWidth.width?_eq {v : Nat} (h : a.HasWidth declared limit position v)
    (ha : ∀ value, a ≠ .const value none) : a.width? declared = some v := by
  cases h with
  | net known => exact known
  | @const value width _ given pos le fits =>
      cases width with
      | none => exact absurd rfl (ha value)
      | some width => simpa [Operand.width?] using given

theorem Operand.leaves?_eq {u v : Nat} (h : a.width? declared = some u) (hsum : v + u = w)
    (hpos : 0 < v) : a.leaves? declared w = some v := by
  rw [Operand.leaves?, h, Option.bind_some, if_pos (by omega)]
  exact congrArg some (by omega)

/-- An operand that is no bare constant means the same at every position. -/
theorem Scope.Resolves.anywhere {scope : Scope} {t : Typed} (h : scope.Resolves position a t)
    (ha : ∀ value, a ≠ .const value none) (position' : Option Nat) : scope.Resolves position' a t := by
  cases h with
  | net found => exact .net found
  | @const value width _ given pos le fits =>
      cases width with
      | none => exact absurd rfl (ha value)
      | some width => exact .const (by simpa using given) pos le fits

end Operands

namespace Equation

variable {declared : String → Option Nat} {limit w i : Nat} {eq : Equation} {value : Word}
  {width : Option UInt32}

/-!
### Rewritten equations
-/

theorem getElem?_args_withWidth_self (harg : eq.args[i]? = some (.const value width))
    (width' : Option UInt32) :
    (eq.withWidth i width').args[i]? = some (.const value width') := by
  simp [withWidth, harg, Operand.withWidth]

theorem getElem?_args_withWidth_of_ne {j : Nat} (hji : j ≠ i) (width' : Option UInt32) :
    (eq.withWidth i width').args[j]? = eq.args[j]? := by
  simp [withWidth, hji.symm]

theorem InfersAt.withWidth (h : eq.InfersAt i) (width' : Option UInt32) :
    (eq.withWidth i width').InfersAt i where
  kind := h.kind
  other hop value' := by
    rw [getElem?_args_withWidth_of_ne (by omega)]
    exact h.other hop value'

/-- Only in a concatenation do the widths that are asked for depend on the operands. -/
theorem positions_of_ne_concat (hop : eq.op ≠ .concat) (args : List Operand) :
    { eq with args := args }.positions declared w = eq.positions declared w := by
  obtain ⟨target, op, args', params, init⟩ := eq
  cases op with
  | concat => exact absurd rfl hop
  | rom | ram => rcases params with _ | ⟨_, _ | ⟨_, _ | ⟨_, _⟩⟩⟩ <;> rfl
  | _ => rfl

/-- What a position asks for does not depend on the width that is written there. -/
theorem getElem?_positions_withWidth (eq : Equation) (i : Nat) (width' : Option UInt32) :
    ((eq.withWidth i width').positions declared w)[i]? = (eq.positions declared w)[i]? := by
  by_cases hop : eq.op = .concat
  · obtain ⟨target, op, args, params, init⟩ := eq
    cases hop
    rcases args with _ | ⟨hi, _ | ⟨lo, _ | ⟨_, _⟩⟩⟩ <;> rcases i with _ | _ | i <;>
      simp [withWidth, positions]
  · rw [withWidth, positions_of_ne_concat hop]

/-!
### The width that is asked for
-/

/-- Each operand of a well typed concatenation is asked for what the other one leaves, and between them
    they fill the target. -/
theorem WellTyped.beside (h : eq.WellTyped declared limit w) (hop : eq.op = .concat) {a : Operand}
    (ha : eq.args[i]? = some a) :
    ∃ b v u, eq.args[1 - i]? = some b ∧
      (eq.positions declared w)[i]? = some (b.leaves? declared w) ∧
      a.HasWidth declared limit (b.leaves? declared w) v ∧
      b.HasWidth declared limit (a.leaves? declared w) u ∧ v + u = w := by
  have hrule := h.rule
  rw [hop] at hrule
  obtain ⟨hi, lo, hw, lw, hargs, high, low, sum⟩ := hrule
  have hpositions : eq.positions declared w = [lo.leaves? declared w, hi.leaves? declared w] := by
    simp [positions, hop, hargs]
  rw [hpositions]
  rw [hargs] at ha ⊢
  match i with
  | 0 =>
      cases ha
      exact ⟨lo, hw, lw, rfl, rfl, high, low, sum⟩
  | 1 =>
      cases ha
      exact ⟨hi, lw, hw, rfl, rfl, low, high, by omega⟩
  | i + 2 => simp at ha

/-- Where a width is asked for, a constant of a well typed equation has it, whether it is written there or
    not. -/
theorem WellTyped.asked (h : eq.WellTyped declared limit w) (hinfers : eq.InfersAt i)
    (harg : eq.args[i]? = some (.const value width)) :
    ∃ v, (eq.positions declared w)[i]? = some (some v) ∧
      (Operand.const value width).HasWidth declared limit (some v) v := by
  by_cases hop : eq.op = .concat
  · obtain ⟨b, v, u, hb, hposition, hv, hu, hsum⟩ := h.beside hop harg
    have hown : b.width? declared = some u := by
      refine hu.width?_eq (fun value' hbare => hinfers.other hop value' ?_)
      rw [hb, hbare]
    have hpos : 0 < v := by
      cases hv with
      | const _ pos => exact pos
    rw [Operand.leaves?_eq hown hsum hpos] at hposition hv
    exact ⟨v, hposition, hv⟩
  · obtain ⟨position, hposition, v, hv, hcompared⟩ := forall₂_getElem?_left h.operands harg
    have hplaces : eq.op.places ≠ [] := by
      obtain ⟨hselect, hslice, hsnip⟩ := hinfers.kind
      cases heq : eq.op <;> simp_all [Op.places]
    cases hcompared hplaces
    exact ⟨v, hposition, hv⟩

/-- A bare constant of a well typed equation stands where a width is asked for. -/
theorem WellTyped.infersAt (h : eq.WellTyped declared limit w)
    (harg : eq.args[i]? = some (.const value none)) : eq.InfersAt i := by
  obtain ⟨position, hposition, v, hv, -⟩ := forall₂_getElem?_left h.operands harg
  have hasked : position = some v := by
    cases hv with
    | const given => simpa using given
  subst hasked
  constructor
  · refine ⟨?_, ?_, ?_⟩ <;>
    · intro hop
      have hnone : eq.positions declared w = [none] := by simp [positions, hop]
      rw [hnone] at hposition
      simpa using List.mem_of_getElem? hposition
  · intro hop value' hbare
    obtain ⟨b, -, -, hb, hposition', -⟩ := h.beside hop harg
    cases hbare.symm.trans hb
    -- two bare constants leave each other nothing to be asked for
    cases hposition.symm.trans hposition'

/-- No other width than the one that is asked for can be written at a constant. -/
theorem WellTyped.written_eq {u : UInt32} {v : Nat}
    (h : (eq.withWidth i (some u)).WellTyped declared limit w) (hinfers : eq.InfersAt i)
    (harg : eq.args[i]? = some (.const value width))
    (hasked : (eq.positions declared w)[i]? = some (some v)) : u.toNat = v := by
  obtain ⟨v', hasked', hv⟩ := h.asked (hinfers.withWidth (some u))
    (getElem?_args_withWidth_self harg (some u))
  rw [getElem?_positions_withWidth] at hasked'
  cases hasked.symm.trans hasked'
  cases hv with
  | const given => simpa using given

/-!
### The same element
-/

/-- An equation becomes the same element with other operands, if each of them means at its position what
    the old one means at its own. -/
theorem Elaborates.of_args {scope : Scope} {e : Element} (h : Elaborates scope w eq e)
    {args : List Operand} (hlength : args.length = eq.args.length)
    (hargs : ∀ (j : Nat) (a a' : Operand) (position position' : Option Nat),
      eq.args[j]? = some a → args[j]? = some a' →
      (eq.positions (declaredIn scope) w)[j]? = some position →
      ({ eq with args := args }.positions (declaredIn scope) w)[j]? = some position' →
      ∀ t, scope.Resolves position a t → scope.Resolves position' a' t) :
    Elaborates scope w { eq with args := args } e := by
  cases h with
  | unary gate operand =>
      obtain ⟨a, rfl⟩ := List.length_eq_one_iff.1 hlength
      refine .unary gate ?_
      cases gate <;> exact hargs 0 _ _ _ _ rfl rfl rfl rfl _ operand
  | binary gate left right =>
      obtain ⟨a, b, rfl⟩ := List.length_eq_two.1 hlength
      refine .binary gate ?_ ?_
      · cases gate <;> exact hargs 0 _ _ _ _ rfl rfl rfl rfl _ left
      · cases gate <;> exact hargs 1 _ _ _ _ rfl rfl rfl rfl _ right
  | mux selector first second =>
      obtain ⟨sel, a, b, rfl⟩ := List.length_eq_three.1 hlength
      exact .mux (hargs 0 _ _ _ _ rfl rfl rfl rfl _ selector)
        (hargs 1 _ _ _ _ rfl rfl rfl rfl _ first) (hargs 2 _ _ _ _ rfl rfl rfl rfl _ second)
  | concat high low sum =>
      obtain ⟨hi, lo, rfl⟩ := List.length_eq_two.1 hlength
      exact .concat (hargs 0 _ _ _ _ rfl rfl rfl rfl _ high)
        (hargs 1 _ _ _ _ rfl rfl rfl rfl _ low) sum
  | extract operand bits =>
      obtain ⟨a, rfl⟩ := List.length_eq_one_iff.1 hlength
      refine .extract ?_ bits
      cases bits <;> exact hargs 0 _ _ _ _ rfl rfl rfl rfl _ operand
  | register operand fits =>
      obtain ⟨next, rfl⟩ := List.length_eq_one_iff.1 hlength
      exact .register (hargs 0 _ _ _ _ rfl rfl rfl rfl _ operand) fits
  | rom pos le wordPos wordLe word address =>
      obtain ⟨addr, rfl⟩ := List.length_eq_one_iff.1 hlength
      exact .rom pos le wordPos wordLe word (hargs 0 _ _ _ _ rfl rfl rfl rfl _ address)
  | ram pos le wordPos wordLe word read enable write data =>
      match args, hlength with
      | [readAddr, writeEnable, writeAddr, writeData], _ =>
          exact .ram pos le wordPos wordLe word (hargs 0 _ _ _ _ rfl rfl rfl rfl _ read)
            (hargs 1 _ _ _ _ rfl rfl rfl rfl _ enable) (hargs 2 _ _ _ _ rfl rfl rfl rfl _ write)
            (hargs 3 _ _ _ _ rfl rfl rfl rfl _ data)

/-- Where a width is asked for, an equation becomes the same element whether a constant has that width
    written at it or none. -/
theorem Elaborates.withWidth {scope : Scope} {e : Element} (h : Elaborates scope w eq e)
    (hinfers : eq.InfersAt i) (harg : eq.args[i]? = some (.const value width)) {v : Nat}
    (hasked : (eq.positions (declaredIn scope) w)[i]? = some (some v)) {width' : Option UInt32}
    (hwidth : (width'.map UInt32.toNat).or (some v) = some v) :
    Elaborates scope w (eq.withWidth i width') e := by
  have htyped := wellTyped_iff_elaborates.2 ⟨e, h⟩
  refine h.of_args (List.length_modify ..) ?_
  intro j a a' position position' ha ha' hposition hposition' t ht
  by_cases hji : j = i
  · subst hji
    cases harg.symm.trans ha
    cases (getElem?_args_withWidth_self harg width').symm.trans ha'
    cases hasked.symm.trans hposition
    cases hasked.symm.trans ((getElem?_positions_withWidth eq j width').symm.trans hposition')
    obtain ⟨v', hasked', hv⟩ := htyped.asked hinfers harg
    cases hasked.symm.trans hasked'
    have hunique := hv.unique (hasWidth_iff.2 ⟨t.source, ht⟩)
    cases ht with
    | const given pos le fits =>
        cases hunique
        exact .const hwidth pos le fits
  · cases ha.symm.trans ((getElem?_args_withWidth_of_ne hji width').symm.trans ha')
    by_cases hop : eq.op = .concat
    · -- the other side of a concatenation may be asked for something else now, but it is not bare
      refine ht.anywhere (fun value' hbare => hinfers.other hop value' ?_) position'
      have hlength := htyped.shape.1
      rw [hop, show Op.signature .concat = (2, 0) from rfl] at hlength
      have hj := (List.getElem?_eq_some_iff.1 ha).1
      have hi := (List.getElem?_eq_some_iff.1 harg).1
      rw [show 1 - i = j by omega, ha, hbare]
    · rw [positions_of_ne_concat hop] at hposition'
      cases hposition.symm.trans hposition'
      exact ht

end Equation

/-!
### The same circuit
-/

namespace Description

variable {d : Description} {config : Config} {c : Circuit} {k i : Nat} {eq : Equation} {value : Word}
  {width : Option UInt32}

/-- The equations of a description that compiles are well typed. -/
theorem wellTyped_of_compile (h : d.compile config = .ok c) (heq : d.equations[k]? = some eq) :
    ∃ target, (d.scope config.maxBusWidth).find eq.target = .ok target ∧
      eq.WellTyped (Equation.declaredIn (d.scope config.maxBusWidth)) config.maxBusWidth
        ((d.scope config.maxBusWidth).width target) := by
  obtain ⟨inputs, outputs, parts, schedule, hchecked, -, -⟩ := compile_eq_ok_iff.1 h
  obtain ⟨part, -, hfind, -, hwidth, helem⟩ := hchecked.part heq
  rw [hwidth] at helem
  exact ⟨part.target, hfind, Equation.wellTyped_iff_elaborates.2 ⟨part.element, helem⟩⟩

/-- Compilation depends on an equation only through the part that it becomes. -/
theorem compile_modify (h : d.compile config = .ok c) {f : Equation → Equation}
    (hf : ∀ eq part, d.equations[k]? = some eq → eq.part (d.scope config.maxBusWidth) = .ok part →
      (f eq).part (d.scope config.maxBusWidth) = .ok part) :
    { d with equations := d.equations.modify k f }.compile config = .ok c := by
  obtain ⟨inputs, outputs, parts, schedule, hchecked, hschedule, rfl⟩ := compile_eq_ok_iff.1 h
  exact compile_eq_ok_iff.2 ⟨inputs, outputs, parts, schedule,
    { hchecked with parts_checked := forall₂_modify_left hchecked.parts_checked hf }, hschedule, rfl⟩

/-- Where a width is asked for, exactly one width can be written at a constant; with it or with none the
    description compiles to the same circuit. -/
theorem compile_withWidth_iff (h : d.compile config = .ok c) (heq : d.equations[k]? = some eq)
    (harg : eq.args[i]? = some (.const value width)) (hinfers : eq.InfersAt i) :
    ∃ v : UInt32, ∀ width' c', (d.withWidth k i width').compile config = .ok c' ↔
      (width' = none ∨ width' = some v) ∧ c' = c := by
  obtain ⟨target, hfind, htyped⟩ := wellTyped_of_compile h heq
  obtain ⟨v, hasked, hv⟩ := htyped.asked hinfers harg
  -- the width is at most 64, so it can be written
  have hwritten : (UInt32.ofNat v).toNat = v := by
    have hmax := config.maxBusWidth_le
    cases hv with
    | const _ _ le => exact UInt32.toNat_ofNat_of_lt (lt_of_le_of_lt (le.trans hmax) (by decide))
  have hsame : ∀ width', width' = none ∨ width' = some (UInt32.ofNat v) →
      (d.withWidth k i width').compile config = .ok c := by
    intro width' hwidth'
    refine compile_modify h (fun eq' part heq' hok => ?_)
    cases heq.symm.trans heq'
    obtain ⟨hfind', hname, hwidth, helem⟩ := Equation.part_eq_ok_iff.1 hok
    cases hfind.symm.trans hfind'
    rw [← hwidth] at hasked
    refine Equation.part_eq_ok_iff.2 ⟨hfind', hname, hwidth, helem.withWidth hinfers harg hasked ?_⟩
    rcases hwidth' with rfl | rfl
    · rfl
    · rw [Option.map_some, Option.some_or, hwritten]
  refine ⟨UInt32.ofNat v, fun width' c' => ⟨fun h' => ?_, ?_⟩⟩
  · have heq' : (d.withWidth k i width').equations[k]? = some (eq.withWidth i width') := by
      simp [withWidth, heq]
    -- the nets are the same, and so are the target and what the position asks for
    obtain ⟨target', hfind', htyped'⟩ := wellTyped_of_compile h' heq'
    cases hfind.symm.trans hfind'
    have hwidth' : width' = none ∨ width' = some (UInt32.ofNat v) := by
      cases width' with
      | none => exact .inl rfl
      | some u =>
          have hu := htyped'.written_eq hinfers harg hasked
          exact .inr (congrArg some (UInt32.toNat_inj.1 (hu.trans hwritten.symm)))
    exact ⟨hwidth', Except.ok.inj (h'.symm.trans (hsame width' hwidth'))⟩
  · rintro ⟨hwidth', rfl⟩
    exact hsame width' hwidth'

/-- The inference of widths is exact. In a description that compiles, the width of a constant can be erased
    wherever a width is asked for, and the circuit stays the same; at a bare constant exactly one width can
    be written, and the circuit stays the same. -/
theorem constant_width_inferred_exactly (h : d.compile config = .ok c)
    (heq : d.equations[k]? = some eq) (harg : eq.args[i]? = some (.const value width)) :
    (eq.InfersAt i → (d.withWidth k i none).compile config = .ok c) ∧
      (width = none → ∃ v : UInt32, ∀ v' c',
        (d.withWidth k i (some v')).compile config = .ok c' ↔ v' = v ∧ c' = c) := by
  constructor
  · intro hinfers
    obtain ⟨v, hv⟩ := compile_withWidth_iff h heq harg hinfers
    exact (hv none c).2 ⟨.inl rfl, rfl⟩
  · rintro rfl
    obtain ⟨target, -, htyped⟩ := wellTyped_of_compile h heq
    obtain ⟨v, hv⟩ := compile_withWidth_iff h heq harg (htyped.infersAt harg)
    exact ⟨v, fun v' c' => by simpa using hv (some v') c'⟩

/-- The keeper is the same circuit without the width of the constant that its choice has as second input,
    and with the width 1, and no other, at the low side of its concatenation. -/
theorem keeper_widths_inferred : ∃ c, keeper.compile .standard = .ok c ∧
    (keeper.withWidth 4 2 none).compile .standard = .ok c ∧
    ∀ v' c', (keeper.withWidth 1 1 (some v')).compile .standard = .ok c' ↔ v' = 1 ∧ c' = c := by
  obtain ⟨c, hc⟩ := exists_eq_ok_of_isOk (x := keeper.compile .standard) (by decide +kernel)
  have herased := (constant_width_inferred_exactly hc (k := 4) (i := 2) rfl rfl).1
    ⟨by decide, by rintro ⟨⟩⟩
  obtain ⟨v, hv⟩ := (constant_width_inferred_exactly hc (k := 1) (i := 1) rfl rfl).2 rfl
  obtain ⟨c', hc'⟩ := exists_eq_ok_of_isOk
    (x := (keeper.withWidth 1 1 (some 1)).compile .standard) (by decide +kernel)
  cases ((hv 1 c').1 hc').1
  exact ⟨c, hc, herased, hv⟩

end Description

end Netlist
