/-
Module: Netlist.Proofs.Elaboration
Layer: Proofs
Purpose: The typing of equations, said twice. `Equation.WellTyped` is the rule of each operation in terms
  of declared widths alone. `Equation.Elaborates` says in addition which element an equation becomes;
  checking an equation succeeds with an element exactly when this relation holds, so every later fact
  about compiled equations is a case analysis of the relation and never of the checks. The two agree: an
  equation is well typed exactly when it becomes some element.
Imports: Netlist.Proofs.Declaration, Netlist.Proofs.Word
Main exports: Operand.HasWidth, Extracts, Equation.WellTyped, Scope.Resolves, Equation.Elaborates,
  Equation.elaborates_of_element, Equation.Elaborates.element, Equation.part_eq_ok_iff,
  Equation.wellTyped_iff_elaborates
-/
import Netlist.Proofs.Declaration
import Netlist.Proofs.Word

namespace Netlist

/-!
### Typing rules

Declared widths are given as a function `declared` from names. The width that the position of an operand
asks for is `position`; only constants without a width use it.
-/

/-- An operand has a width: a net the declared one, a constant the given one or else that of its
    position. A constant has to fit its width, and the width has to be allowed. -/
inductive Operand.HasWidth (declared : String → Option Nat) (limit : Nat) (position : Option Nat) :
    Operand → Nat → Prop where
  | net {name : String} {w : Nat} (known : declared name = some w) :
      HasWidth declared limit position (.net name) w
  | const {value : Word} {width : Option UInt32} {w : Nat}
      (given : (width.map UInt32.toNat).or position = some w) (pos : 0 < w) (le : w ≤ limit)
      (fits : value.toNat < 2 ^ w) : HasWidth declared limit position (.const value width) w

/-- The width that an operand has by itself. -/
def Operand.width? (declared : String → Option Nat) : Operand → Option Nat
  | .net name => declared name
  | .const _ width => width.map UInt32.toNat

/-- What an operand of known width leaves of `w` bits, if it leaves any. -/
def Operand.leaves? (declared : String → Option Nat) (w : Nat) (other : Operand) : Option Nat :=
  (other.width? declared).bind (fun v => if v < w then some (w - v) else none)

/-- Operations that extract `count` bits from position `low` on of an operand of width `w`. -/
inductive Extracts (w : Nat) : Op → List UInt32 → Nat → Nat → Prop where
  | select {i : UInt32} (inside : i.toNat < w) : Extracts w .select [i] i.toNat 1
  | slice {low high : UInt32} (ordered : low.toNat ≤ high.toNat) (inside : high.toNat < w) :
      Extracts w .slice [low, high] low.toNat (high.toNat - low.toNat + 1)
  | snip {low high : UInt32} (ordered : low.toNat < high.toNat) (inside : high.toNat ≤ w) :
      Extracts w .snip [low, high] low.toNat (high.toNat - low.toNat)

/-- The rule of each operation for a target of width `w`. -/
inductive Equation.WellTyped (declared : String → Option Nat) (limit w : Nat) : Equation → Prop where
  | unary {target : String} {op : Op} {a : Operand} (kind : op = .copy ∨ op = .not)
      (operand : a.HasWidth declared limit (some w) w) :
      WellTyped declared limit w ⟨target, op, [a], [], none⟩
  | binary {target : String} {op : Op} {a b : Operand}
      (kind : op = .and ∨ op = .or ∨ op = .xor ∨ op = .nand ∨ op = .nxor)
      (left : a.HasWidth declared limit (some w) w) (right : b.HasWidth declared limit (some w) w) :
      WellTyped declared limit w ⟨target, op, [a, b], [], none⟩
  | mux {target : String} {sel a b : Operand} (selector : sel.HasWidth declared limit (some 1) 1)
      (first : a.HasWidth declared limit (some w) w)
      (second : b.HasWidth declared limit (some w) w) :
      WellTyped declared limit w ⟨target, .mux, [sel, a, b], [], none⟩
  | concat {target : String} {hi lo : Operand} {hw lw : Nat}
      (high : hi.HasWidth declared limit (lo.leaves? declared w) hw)
      (low : lo.HasWidth declared limit (hi.leaves? declared w) lw) (sum : hw + lw = w) :
      WellTyped declared limit w ⟨target, .concat, [hi, lo], [], none⟩
  | extract {target : String} {op : Op} {params : List UInt32} {a : Operand} {aw low : Nat}
      (operand : a.HasWidth declared limit none aw) (bits : Extracts aw op params low w) :
      WellTyped declared limit w ⟨target, op, [a], params, none⟩
  | register {target : String} {next : Operand} {init : Option Word}
      (operand : next.HasWidth declared limit (some w) w)
      (fits : (init.getD 0).toNat < 2 ^ w) :
      WellTyped declared limit w ⟨target, .reg, [next], [], init⟩
  | rom {target : String} {addr : Operand} {addrWidth wordWidth : UInt32}
      (pos : 0 < addrWidth.toNat) (le : addrWidth.toNat ≤ limit)
      (wordPos : 0 < wordWidth.toNat) (wordLe : wordWidth.toNat ≤ limit)
      (word : wordWidth.toNat = w)
      (address : addr.HasWidth declared limit (some addrWidth.toNat) addrWidth.toNat) :
      WellTyped declared limit w ⟨target, .rom, [addr], [addrWidth, wordWidth], none⟩
  | ram {target : String} {readAddr writeEnable writeAddr writeData : Operand}
      {addrWidth wordWidth : UInt32}
      (pos : 0 < addrWidth.toNat) (le : addrWidth.toNat ≤ limit)
      (wordPos : 0 < wordWidth.toNat) (wordLe : wordWidth.toNat ≤ limit)
      (word : wordWidth.toNat = w)
      (read : readAddr.HasWidth declared limit (some addrWidth.toNat) addrWidth.toNat)
      (enable : writeEnable.HasWidth declared limit (some 1) 1)
      (write : writeAddr.HasWidth declared limit (some addrWidth.toNat) addrWidth.toNat)
      (data : writeData.HasWidth declared limit (some wordWidth.toNat) wordWidth.toNat) :
      WellTyped declared limit w
        ⟨target, .ram, [readAddr, writeEnable, writeAddr, writeData], [addrWidth, wordWidth], none⟩

/-- A well typed equation has the shape that its operation asks for. -/
theorem Equation.WellTyped.shape {declared : String → Option Nat} {limit w : Nat} {eq : Equation}
    (h : eq.WellTyped declared limit w) :
    eq.args.length = eq.op.signature.1 ∧ eq.params.length = eq.op.signature.2 ∧
      (eq.init.isSome = true → eq.op = .reg) := by
  cases h with
  | unary kind => rcases kind with rfl | rfl <;> simp [Op.signature]
  | binary kind => rcases kind with rfl | rfl | rfl | rfl | rfl <;> simp [Op.signature]
  | extract operand bits => cases bits <;> simp [Op.signature]
  | _ => simp [Op.signature]

/-!
### Elaboration
-/

inductive UnaryGate : Op → GateKind → Prop where
  | copy : UnaryGate .copy .copy
  | not : UnaryGate .not .not

inductive BinaryGate : Op → GateKind → Prop where
  | and : BinaryGate .and .and
  | or : BinaryGate .or .or
  | xor : BinaryGate .xor .xor
  | nand : BinaryGate .nand .nand
  | nxor : BinaryGate .nxor .nxor

/-- An operand stands for a net of the scope or for a constant, with a width. -/
inductive Scope.Resolves (scope : Scope) (position : Option Nat) : Operand → Typed → Prop where
  | net {name : String} {id : NetId} (found : scope.find name = .ok id) :
      Resolves scope position (.net name) ⟨.net id, scope.width id⟩
  | const {value : Word} {width : Option UInt32} {w : Nat}
      (given : (width.map UInt32.toNat).or position = some w) (pos : 0 < w) (le : w ≤ scope.limit)
      (fits : value.toNat < 2 ^ w) :
      Resolves scope position (.const value width) ⟨.const value, w⟩

namespace Equation

def declaredIn (scope : Scope) (name : String) : Option Nat :=
  (findNet? scope.nets name).map scope.width

/-- An equation for a target of width `w` becomes an element. -/
inductive Elaborates (scope : Scope) (w : Nat) : Equation → Element → Prop where
  | unary {target : String} {op : Op} {kind : GateKind} {a : Operand} {sa : Source}
      (gate : UnaryGate op kind) (operand : scope.Resolves (some w) a ⟨sa, w⟩) :
      Elaborates scope w ⟨target, op, [a], [], none⟩ (.logic kind [sa])
  | binary {target : String} {op : Op} {kind : GateKind} {a b : Operand} {sa sb : Source}
      (gate : BinaryGate op kind) (left : scope.Resolves (some w) a ⟨sa, w⟩)
      (right : scope.Resolves (some w) b ⟨sb, w⟩) :
      Elaborates scope w ⟨target, op, [a, b], [], none⟩ (.logic kind [sa, sb])
  | mux {target : String} {sel a b : Operand} {ss sa sb : Source}
      (selector : scope.Resolves (some 1) sel ⟨ss, 1⟩) (first : scope.Resolves (some w) a ⟨sa, w⟩)
      (second : scope.Resolves (some w) b ⟨sb, w⟩) :
      Elaborates scope w ⟨target, .mux, [sel, a, b], [], none⟩ (.logic .mux [ss, sa, sb])
  | concat {target : String} {hi lo : Operand} {sh sl : Source} {hw lw : Nat}
      (high : scope.Resolves (lo.leaves? (declaredIn scope) w) hi ⟨sh, hw⟩)
      (low : scope.Resolves (hi.leaves? (declaredIn scope) w) lo ⟨sl, lw⟩) (sum : hw + lw = w) :
      Elaborates scope w ⟨target, .concat, [hi, lo], [], none⟩ (.logic (.concat lw) [sh, sl])
  | extract {target : String} {op : Op} {params : List UInt32} {a : Operand} {sa : Source}
      {aw low : Nat} (operand : scope.Resolves none a ⟨sa, aw⟩)
      (bits : Extracts aw op params low w) :
      Elaborates scope w ⟨target, op, [a], params, none⟩ (.logic (.bits low) [sa])
  | register {target : String} {next : Operand} {init : Option Word} {sn : Source}
      (operand : scope.Resolves (some w) next ⟨sn, w⟩) (fits : (init.getD 0).toNat < 2 ^ w) :
      Elaborates scope w ⟨target, .reg, [next], [], init⟩ (.register sn (init.getD 0))
  | rom {target : String} {addr : Operand} {sa : Source} {addrWidth wordWidth : UInt32}
      (pos : 0 < addrWidth.toNat) (le : addrWidth.toNat ≤ scope.limit)
      (wordPos : 0 < wordWidth.toNat) (wordLe : wordWidth.toNat ≤ scope.limit)
      (word : wordWidth.toNat = w)
      (address : scope.Resolves (some addrWidth.toNat) addr ⟨sa, addrWidth.toNat⟩) :
      Elaborates scope w ⟨target, .rom, [addr], [addrWidth, wordWidth], none⟩
        (.rom addrWidth.toNat wordWidth.toNat sa)
  | ram {target : String} {readAddr writeEnable writeAddr writeData : Operand}
      {sr se sw sd : Source} {addrWidth wordWidth : UInt32}
      (pos : 0 < addrWidth.toNat) (le : addrWidth.toNat ≤ scope.limit)
      (wordPos : 0 < wordWidth.toNat) (wordLe : wordWidth.toNat ≤ scope.limit)
      (word : wordWidth.toNat = w)
      (read : scope.Resolves (some addrWidth.toNat) readAddr ⟨sr, addrWidth.toNat⟩)
      (enable : scope.Resolves (some 1) writeEnable ⟨se, 1⟩)
      (write : scope.Resolves (some addrWidth.toNat) writeAddr ⟨sw, addrWidth.toNat⟩)
      (data : scope.Resolves (some wordWidth.toNat) writeData ⟨sd, wordWidth.toNat⟩) :
      Elaborates scope w
        ⟨target, .ram, [readAddr, writeEnable, writeAddr, writeData], [addrWidth, wordWidth], none⟩
        (.ram addrWidth.toNat wordWidth.toNat sr se sw sd)

/-!
### Checks as relations
-/

variable {scope : Scope} {eq : Equation} {w : Nat} {e : Element}

theorem admits_iff {w : Nat} : scope.admits w = true ↔ 0 < w ∧ w ≤ scope.limit := by
  simp [Scope.admits]

/-- Resolving an operand succeeds exactly when it has a meaning. -/
theorem resolve_eq_ok_iff {a : Operand} {position : Option Nat} {t : Typed} :
    eq.resolve scope a position = .ok t ↔ scope.Resolves position a t := by
  cases a with
  | net name =>
      rw [resolve, bind_eq_ok_iff]
      constructor
      · rintro ⟨id, hfind, ht⟩
        injection ht with ht
        exact ht ▸ .net hfind
      · intro h
        cases h with
        | net found => exact ⟨_, found, rfl⟩
  | const value width =>
      rw [resolve]
      cases hwidth : (width.map UInt32.toNat).or position with
      | none =>
          simp only [reduceCtorEq, false_iff]
          intro h
          cases h with
          | const given => simp [hwidth] at given
      | some v =>
          simp only
          constructor
          · intro h
            split at h
            · next hadmits =>
                split at h
                · next hfits =>
                    injection h with h
                    obtain ⟨hpos, hle⟩ := admits_iff.1 hadmits
                    exact h ▸ .const hwidth hpos hle (Word.fits_iff.1 hfits)
                · cases h
            · cases h
          · intro h
            cases h with
            | const given pos le fits =>
                rw [hwidth] at given
                cases given
                rw [if_pos (admits_iff.2 ⟨pos, le⟩), if_pos (Word.fits_iff.2 fits)]

theorem expectWidth_eq_ok_iff {what : Place} {expected found : Nat} {u : Unit} :
    eq.expectWidth what expected found = .ok u ↔ expected = found := by
  rw [expectWidth]
  split
  · next h => simp [h]
  · next h => simp [h]

/-- The shape of an equation is right when it has the counts of its operation. -/
theorem checkShape_eq_ok_iff {u : Unit} : eq.checkShape = .ok u ↔
    eq.args.length = eq.op.signature.1 ∧ eq.params.length = eq.op.signature.2 ∧
      (eq.init.isSome = true → eq.op = .reg) := by
  rw [checkShape]
  simp only
  split
  · next h => simp [h]
  · next hargs =>
      split
      · next h => simp [h]
      · next hparams =>
          split
          · next h => simp [h.1, h.2]
          · next hinit =>
              simp only [ne_eq, Decidable.not_not] at hargs hparams
              simp only [true_iff]
              exact ⟨hargs, hparams, fun hsome => by_contra fun hne => hinit ⟨hsome, hne⟩⟩

theorem unary_eq_ok_iff {kind : GateKind} {a : Operand} :
    eq.unary scope w kind a = .ok e ↔
      ∃ sa, scope.Resolves (some w) a ⟨sa, w⟩ ∧ e = .logic kind [sa] := by
  simp only [unary, bind_eq_ok_iff, resolve_eq_ok_iff, expectWidth_eq_ok_iff]
  constructor
  · rintro ⟨⟨sa, aw⟩, ha, _, rfl, he⟩
    injection he with he
    exact ⟨sa, ha, he.symm⟩
  · rintro ⟨sa, ha, rfl⟩
    exact ⟨⟨sa, w⟩, ha, (), rfl, rfl⟩

theorem binary_eq_ok_iff {kind : GateKind} {a b : Operand} :
    eq.binary scope w kind a b = .ok e ↔
      ∃ sa sb, scope.Resolves (some w) a ⟨sa, w⟩ ∧ scope.Resolves (some w) b ⟨sb, w⟩ ∧
        e = .logic kind [sa, sb] := by
  simp only [binary, bind_eq_ok_iff, resolve_eq_ok_iff, expectWidth_eq_ok_iff]
  constructor
  · rintro ⟨⟨sa, aw⟩, ha, ⟨sb, bw⟩, hb, _, rfl, _, rfl, he⟩
    injection he with he
    exact ⟨sa, sb, ha, hb, he.symm⟩
  · rintro ⟨sa, sb, ha, hb, rfl⟩
    exact ⟨⟨sa, w⟩, ha, ⟨sb, w⟩, hb, (), rfl, (), rfl, rfl⟩

theorem mux_eq_ok_iff {sel a b : Operand} :
    eq.mux scope w sel a b = .ok e ↔
      ∃ ss sa sb, scope.Resolves (some 1) sel ⟨ss, 1⟩ ∧ scope.Resolves (some w) a ⟨sa, w⟩ ∧
        scope.Resolves (some w) b ⟨sb, w⟩ ∧ e = .logic .mux [ss, sa, sb] := by
  simp only [mux, bind_eq_ok_iff, resolve_eq_ok_iff, expectWidth_eq_ok_iff]
  constructor
  · rintro ⟨⟨ss, sw⟩, hs, ⟨sa, aw⟩, ha, ⟨sb, bw⟩, hb, _, rfl, _, rfl, _, rfl, he⟩
    injection he with he
    exact ⟨ss, sa, sb, hs, ha, hb, he.symm⟩
  · rintro ⟨ss, sa, sb, hs, ha, hb, rfl⟩
    exact ⟨⟨ss, 1⟩, hs, ⟨sa, w⟩, ha, ⟨sb, w⟩, hb, (), rfl, (), rfl, (), rfl, rfl⟩

theorem ownWidth_eq_ok_iff {a : Operand} {own : Option Nat} :
    ownWidth scope a = .ok own ↔
      (∀ name, a = .net name → ∃ id, scope.find name = .ok id) ∧
        own = a.width? (declaredIn scope) := by
  cases a with
  | net name =>
      simp only [ownWidth, bind_eq_ok_iff, Operand.width?, declaredIn, Operand.net.injEq,
        forall_eq', Scope.find_eq_ok_iff_findNet?]
      constructor
      · rintro ⟨id, hid, hown⟩
        injection hown with hown
        exact ⟨⟨id, hid⟩, by rw [hid, ← hown]; rfl⟩
      · rintro ⟨⟨id, hid⟩, rfl⟩
        exact ⟨id, hid, by rw [hid]; rfl⟩
  | const value width => simp [ownWidth, Operand.width?, eq_comm]

/-- What one side leaves is what the other side is offered. -/
theorem remainder_width? {a : Operand} :
    remainder w (a.width? (declaredIn scope)) = a.leaves? (declaredIn scope) w := by
  rw [Operand.leaves?]
  cases a.width? (declaredIn scope) <;> rfl

theorem concat_eq_ok_iff {hi lo : Operand} :
    eq.concat scope w hi lo = .ok e ↔
      ∃ sh sl hw lw, scope.Resolves (lo.leaves? (declaredIn scope) w) hi ⟨sh, hw⟩ ∧
        scope.Resolves (hi.leaves? (declaredIn scope) w) lo ⟨sl, lw⟩ ∧ hw + lw = w ∧
        e = .logic (.concat lw) [sh, sl] := by
  simp only [concat, bind_eq_ok_iff, resolve_eq_ok_iff, expectWidth_eq_ok_iff, ownWidth_eq_ok_iff]
  constructor
  · rintro ⟨_, ⟨-, rfl⟩, _, ⟨-, rfl⟩, ⟨sh, hw⟩, hhi, ⟨sl, lw⟩, hlo, _, hsum, he⟩
    injection he with he
    rw [remainder_width?] at hhi hlo
    exact ⟨sh, sl, hw, lw, hhi, hlo, hsum.symm, he.symm⟩
  · rintro ⟨sh, sl, hw, lw, hhi, hlo, hsum, rfl⟩
    -- an operand with a meaning has a width of its own, or none if it is a bare constant
    have hknown : ∀ {position : Option Nat} {a : Operand} {t : Typed}, scope.Resolves position a t →
        ∀ name, a = .net name → ∃ id, scope.find name = .ok id := by
      rintro position a t (⟨hfind⟩ | _) name heq
      · cases heq
        exact ⟨_, hfind⟩
      · cases heq
    refine ⟨_, ⟨hknown hhi, rfl⟩, _, ⟨hknown hlo, rfl⟩, ⟨sh, hw⟩, ?_, ⟨sl, lw⟩, ?_, (), hsum.symm, rfl⟩
    · rw [remainder_width?]
      exact hhi
    · rw [remainder_width?]
      exact hlo

theorem extract_eq_ok_iff {a : Operand} {low high count : Nat} {inside : Nat → Bool} :
    eq.extract scope w a low high count inside = .ok e ↔
      ∃ sa aw, scope.Resolves none a ⟨sa, aw⟩ ∧ inside aw = true ∧ w = count ∧
        e = .logic (.bits low) [sa] := by
  simp only [extract, bind_eq_ok_iff, resolve_eq_ok_iff]
  constructor
  · rintro ⟨⟨sa, aw⟩, ha, h⟩
    split at h
    · next hinside =>
        simp only [bind_eq_ok_iff, expectWidth_eq_ok_iff] at h
        obtain ⟨_, hcount, he⟩ := h
        injection he with he
        exact ⟨sa, aw, ha, hinside, hcount, he.symm⟩
    · cases h
  · rintro ⟨sa, aw, ha, hinside, hcount, rfl⟩
    refine ⟨⟨sa, aw⟩, ha, ?_⟩
    rw [if_pos hinside, bind_eq_ok_iff]
    exact ⟨(), expectWidth_eq_ok_iff.2 hcount, rfl⟩

theorem register_eq_ok_iff {next : Operand} :
    eq.register scope w next = .ok e ↔
      ∃ sn, scope.Resolves (some w) next ⟨sn, w⟩ ∧ (eq.init.getD 0).toNat < 2 ^ w ∧
        e = .register sn (eq.init.getD 0) := by
  simp only [register, bind_eq_ok_iff, resolve_eq_ok_iff, expectWidth_eq_ok_iff]
  constructor
  · rintro ⟨⟨sn, nw⟩, hn, _, rfl, h⟩
    split at h
    · next hfits =>
        injection h with h
        exact ⟨sn, hn, Word.fits_iff.1 hfits, h.symm⟩
    · cases h
  · rintro ⟨sn, hn, hfits, rfl⟩
    exact ⟨⟨sn, w⟩, hn, (), rfl, by rw [if_pos (Word.fits_iff.2 hfits)]⟩

theorem checkMemory_eq_ok_iff {addrWidth wordWidth : Nat} {u : Unit} :
    eq.checkMemory scope w addrWidth wordWidth = .ok u ↔
      (0 < addrWidth ∧ addrWidth ≤ scope.limit) ∧ (0 < wordWidth ∧ wordWidth ≤ scope.limit) ∧
        wordWidth = w := by
  rw [checkMemory]
  split
  · next haddr =>
      split
      · next hword => simp [expectWidth_eq_ok_iff, admits_iff.1 haddr, admits_iff.1 hword]
      · next hword => simp [admits_iff] at hword; simp; omega
  · next haddr => simp [admits_iff] at haddr; simp; omega

theorem rom_eq_ok_iff {addrWidth wordWidth : Nat} {addr : Operand} :
    eq.rom scope w addrWidth wordWidth addr = .ok e ↔
      ((0 < addrWidth ∧ addrWidth ≤ scope.limit) ∧ (0 < wordWidth ∧ wordWidth ≤ scope.limit) ∧
        wordWidth = w) ∧
      ∃ sa, scope.Resolves (some addrWidth) addr ⟨sa, addrWidth⟩ ∧
        e = .rom addrWidth wordWidth sa := by
  simp only [rom, bind_eq_ok_iff, resolve_eq_ok_iff, expectWidth_eq_ok_iff, checkMemory_eq_ok_iff]
  constructor
  · rintro ⟨_, hmem, ⟨sa, aw⟩, ha, _, rfl, he⟩
    injection he with he
    exact ⟨hmem, sa, ha, he.symm⟩
  · rintro ⟨hmem, sa, ha, rfl⟩
    exact ⟨(), hmem, ⟨sa, addrWidth⟩, ha, (), rfl, rfl⟩

theorem ram_eq_ok_iff {addrWidth wordWidth : Nat}
    {readAddr writeEnable writeAddr writeData : Operand} :
    eq.ram scope w addrWidth wordWidth readAddr writeEnable writeAddr writeData = .ok e ↔
      ((0 < addrWidth ∧ addrWidth ≤ scope.limit) ∧ (0 < wordWidth ∧ wordWidth ≤ scope.limit) ∧
        wordWidth = w) ∧
      ∃ sr se sw sd, scope.Resolves (some addrWidth) readAddr ⟨sr, addrWidth⟩ ∧
        scope.Resolves (some 1) writeEnable ⟨se, 1⟩ ∧
        scope.Resolves (some addrWidth) writeAddr ⟨sw, addrWidth⟩ ∧
        scope.Resolves (some wordWidth) writeData ⟨sd, wordWidth⟩ ∧
        e = .ram addrWidth wordWidth sr se sw sd := by
  simp only [ram, bind_eq_ok_iff, resolve_eq_ok_iff, expectWidth_eq_ok_iff, checkMemory_eq_ok_iff]
  constructor
  · rintro ⟨_, hmem, ⟨sr, rw'⟩, hr, ⟨se, ew⟩, hen, ⟨sw, ww⟩, hw, ⟨sd, dw⟩, hd, _, rfl, _, rfl, _,
      rfl, _, rfl, he⟩
    injection he with he
    exact ⟨hmem, sr, se, sw, sd, hr, hen, hw, hd, he.symm⟩
  · rintro ⟨hmem, sr, se, sw, sd, hr, hen, hw, hd, rfl⟩
    exact ⟨(), hmem, ⟨sr, _⟩, hr, ⟨se, _⟩, hen, ⟨sw, _⟩, hw, ⟨sd, _⟩, hd, (), rfl, (), rfl, (), rfl,
      (), rfl, rfl⟩

/-!
### Equations as relations
-/

theorem params_eq_singleton {params : List UInt32} {m : Nat}
    (h : params.map UInt32.toNat = [m]) : ∃ p, params = [p] ∧ p.toNat = m := by
  obtain ⟨p, rfl, hp⟩ := List.map_eq_singleton_iff.1 h
  exact ⟨p, rfl, hp⟩

theorem params_eq_pair {params : List UInt32} {m n : Nat}
    (h : params.map UInt32.toNat = [m, n]) :
    ∃ p q, params = [p, q] ∧ p.toNat = m ∧ q.toNat = n := by
  obtain ⟨p, rest, rfl, hp, hrest⟩ := List.map_eq_cons_iff.1 h
  obtain ⟨q, rfl, hq⟩ := params_eq_singleton hrest
  exact ⟨p, q, rfl, hp, hq⟩

/-- An equation that passes the checks elaborates to its element. -/
theorem elaborates_of_element (hinit : eq.init.isSome = true → eq.op = .reg)
    (h : eq.element scope w = .ok e) : Elaborates scope w eq e := by
  obtain ⟨target, op, args, params, init⟩ := eq
  simp only at hinit
  -- registers apart, there is no power-on value
  have hnone : op ≠ .reg → init = none := by
    intro hop
    cases init with
    | none => rfl
    | some v => exact absurd (hinit rfl) hop
  rw [element] at h
  simp only at h
  split at h
  case h_1 hparams | h_2 hparams =>
    cases List.map_eq_nil_iff.1 hparams
    cases hnone (by decide)
    obtain ⟨sa, ha, rfl⟩ := unary_eq_ok_iff.1 h
    exact .unary (by constructor) ha
  case h_3 hparams | h_4 hparams | h_5 hparams | h_6 hparams | h_7 hparams =>
    cases List.map_eq_nil_iff.1 hparams
    cases hnone (by decide)
    obtain ⟨sa, sb, ha, hb, rfl⟩ := binary_eq_ok_iff.1 h
    exact .binary (by constructor) ha hb
  case h_8 hparams =>
    cases List.map_eq_nil_iff.1 hparams
    cases hnone (by decide)
    obtain ⟨ss, sa, sb, hs, ha, hb, rfl⟩ := mux_eq_ok_iff.1 h
    exact .mux hs ha hb
  case h_9 hparams =>
    cases List.map_eq_nil_iff.1 hparams
    obtain ⟨sn, hn, hfits, rfl⟩ := register_eq_ok_iff.1 h
    exact .register hn hfits
  case h_10 hparams =>
    obtain ⟨p, q, rfl, rfl, rfl⟩ := params_eq_pair hparams
    cases hnone (by decide)
    obtain ⟨⟨⟨hpos, hle⟩, ⟨hwpos, hwle⟩, hword⟩, sr, se, sw, sd, hr, hen, hw, hd, rfl⟩ :=
      ram_eq_ok_iff.1 h
    exact .ram hpos hle hwpos hwle hword hr hen hw hd
  case h_11 hparams =>
    obtain ⟨p, q, rfl, rfl, rfl⟩ := params_eq_pair hparams
    cases hnone (by decide)
    obtain ⟨⟨⟨hpos, hle⟩, ⟨hwpos, hwle⟩, hword⟩, sa, ha, rfl⟩ := rom_eq_ok_iff.1 h
    exact .rom hpos hle hwpos hwle hword ha
  case h_12 hparams =>
    cases List.map_eq_nil_iff.1 hparams
    cases hnone (by decide)
    obtain ⟨sh, sl, hw, lw, hhi, hlo, hsum, rfl⟩ := concat_eq_ok_iff.1 h
    exact .concat hhi hlo hsum
  case h_13 hparams =>
    obtain ⟨p, rfl, rfl⟩ := params_eq_singleton hparams
    cases hnone (by decide)
    obtain ⟨sa, aw, ha, hinside, rfl, rfl⟩ := extract_eq_ok_iff.1 h
    exact .extract ha (.select (by simpa using hinside))
  case h_14 hparams =>
    obtain ⟨p, q, rfl, rfl, rfl⟩ := params_eq_pair hparams
    cases hnone (by decide)
    obtain ⟨sa, aw, ha, hinside, rfl, rfl⟩ := extract_eq_ok_iff.1 h
    simp only [Bool.and_eq_true, decide_eq_true_eq] at hinside
    exact .extract ha (.slice hinside.1 hinside.2)
  case h_15 hparams =>
    obtain ⟨p, q, rfl, rfl, rfl⟩ := params_eq_pair hparams
    cases hnone (by decide)
    obtain ⟨sa, aw, ha, hinside, rfl, rfl⟩ := extract_eq_ok_iff.1 h
    simp only [Bool.and_eq_true, decide_eq_true_eq] at hinside
    exact .extract ha (.snip hinside.1 hinside.2)
  case h_16 => cases h

/-- An equation that elaborates passes the checks. -/
theorem Elaborates.element (h : Elaborates scope w eq e) :
    eq.checkShape = .ok () ∧ eq.element scope w = .ok e := by
  rw [checkShape_eq_ok_iff]
  cases h with
  | unary gate operand =>
      cases gate <;>
        exact ⟨⟨rfl, rfl, by simp⟩, unary_eq_ok_iff.2 ⟨_, operand, rfl⟩⟩
  | binary gate left right =>
      cases gate <;>
        exact ⟨⟨rfl, rfl, by simp⟩, binary_eq_ok_iff.2 ⟨_, _, left, right, rfl⟩⟩
  | mux selector first second =>
      exact ⟨⟨rfl, rfl, by simp⟩, mux_eq_ok_iff.2 ⟨_, _, _, selector, first, second, rfl⟩⟩
  | concat high low sum =>
      exact ⟨⟨rfl, rfl, by simp⟩, concat_eq_ok_iff.2 ⟨_, _, _, _, high, low, sum, rfl⟩⟩
  | extract operand bits =>
      cases bits with
      | select inside =>
          refine ⟨⟨rfl, rfl, by simp⟩, ?_⟩
          simp only [Equation.element, List.map_cons, List.map_nil]
          exact extract_eq_ok_iff.2 ⟨_, _, operand, by simpa using inside, rfl, rfl⟩
      | slice ordered inside =>
          refine ⟨⟨rfl, rfl, by simp⟩, ?_⟩
          simp only [Equation.element, List.map_cons, List.map_nil]
          exact extract_eq_ok_iff.2 ⟨_, _, operand, by simp [ordered, inside], rfl, rfl⟩
      | snip ordered inside =>
          refine ⟨⟨rfl, rfl, by simp⟩, ?_⟩
          simp only [Equation.element, List.map_cons, List.map_nil]
          exact extract_eq_ok_iff.2 ⟨_, _, operand, by simp [ordered, inside], rfl, rfl⟩
  | register operand fits =>
      exact ⟨⟨rfl, rfl, by simp⟩, register_eq_ok_iff.2 ⟨_, operand, fits, rfl⟩⟩
  | rom pos le wordPos wordLe word address =>
      exact ⟨⟨rfl, rfl, by simp⟩,
        rom_eq_ok_iff.2 ⟨⟨⟨pos, le⟩, ⟨wordPos, wordLe⟩, word⟩, _, address, rfl⟩⟩
  | ram pos le wordPos wordLe word read enable write data =>
      exact ⟨⟨rfl, rfl, by simp⟩,
        ram_eq_ok_iff.2 ⟨⟨⟨pos, le⟩, ⟨wordPos, wordLe⟩, word⟩, _, _, _, _, read, enable, write, data,
          rfl⟩⟩

/-- An equation becomes a part exactly when its target is declared and it elaborates. -/
theorem part_eq_ok_iff {part : Part} :
    eq.part scope = .ok part ↔
      scope.find eq.target = .ok part.target ∧ part.name = eq.target ∧
        part.width = scope.width part.target ∧ Elaborates scope part.width eq part.element := by
  simp only [Equation.part, bind_eq_ok_iff]
  constructor
  · rintro ⟨target, htarget, _, hshape, element, helement, hpart⟩
    injection hpart with hpart
    subst hpart
    exact ⟨htarget, rfl, rfl,
      elaborates_of_element (checkShape_eq_ok_iff.1 hshape).2.2 helement⟩
  · rintro ⟨htarget, hname, hwidth, helem⟩
    rw [hwidth] at helem
    obtain ⟨hshape, helement⟩ := helem.element
    refine ⟨part.target, htarget, (), hshape, part.element, helement, ?_⟩
    rw [← hname, ← hwidth]

/-!
### Typing is elaboration without the element
-/

theorem declaredIn_eq_some_iff {name : String} {v : Nat} :
    declaredIn scope name = some v ↔ ∃ id, scope.find name = .ok id ∧ scope.width id = v := by
  simp only [declaredIn, Option.map_eq_some_iff, Scope.find_eq_ok_iff_findNet?]

/-- The declared widths of a description are those of its scope. -/
theorem declaredIn_scope {d : Description} (limit : Nat) (hsize : d.nets.length ≤ UInt32.size) :
    declaredIn (d.scope limit) = d.width? := by
  funext name
  refine Option.ext (fun v => ?_)
  rw [declaredIn_eq_some_iff, Description.width?_eq_some_iff hsize]

/-- An operand has a width exactly when it has a meaning of that width. -/
theorem hasWidth_iff {position : Option Nat} {a : Operand} {v : Nat} :
    a.HasWidth (declaredIn scope) scope.limit position v ↔
      ∃ s, scope.Resolves position a ⟨s, v⟩ := by
  constructor
  · intro h
    cases h with
    | net known =>
        obtain ⟨id, hfind, rfl⟩ := declaredIn_eq_some_iff.1 known
        exact ⟨_, .net hfind⟩
    | const given pos le fits => exact ⟨_, .const given pos le fits⟩
  · rintro ⟨s, h⟩
    cases h with
    | net found => exact .net (declaredIn_eq_some_iff.2 ⟨_, found, rfl⟩)
    | const given pos le fits => exact .const given pos le fits

/-- An equation is well typed exactly when it becomes some element. -/
theorem wellTyped_iff_elaborates :
    eq.WellTyped (declaredIn scope) scope.limit w ↔ ∃ e, Elaborates scope w eq e := by
  constructor
  · intro h
    cases h with
    | unary kind operand =>
        obtain ⟨sa, ha⟩ := hasWidth_iff.1 operand
        rcases kind with rfl | rfl
        · exact ⟨_, .unary .copy ha⟩
        · exact ⟨_, .unary .not ha⟩
    | binary kind left right =>
        obtain ⟨sa, ha⟩ := hasWidth_iff.1 left
        obtain ⟨sb, hb⟩ := hasWidth_iff.1 right
        rcases kind with rfl | rfl | rfl | rfl | rfl
        · exact ⟨_, .binary .and ha hb⟩
        · exact ⟨_, .binary .or ha hb⟩
        · exact ⟨_, .binary .xor ha hb⟩
        · exact ⟨_, .binary .nand ha hb⟩
        · exact ⟨_, .binary .nxor ha hb⟩
    | mux selector first second =>
        obtain ⟨ss, hs⟩ := hasWidth_iff.1 selector
        obtain ⟨sa, ha⟩ := hasWidth_iff.1 first
        obtain ⟨sb, hb⟩ := hasWidth_iff.1 second
        exact ⟨_, .mux hs ha hb⟩
    | concat high low sum =>
        obtain ⟨sh, hh⟩ := hasWidth_iff.1 high
        obtain ⟨sl, hl⟩ := hasWidth_iff.1 low
        exact ⟨_, .concat hh hl sum⟩
    | extract operand bits =>
        obtain ⟨sa, ha⟩ := hasWidth_iff.1 operand
        exact ⟨_, .extract ha bits⟩
    | register operand fits =>
        obtain ⟨sn, hn⟩ := hasWidth_iff.1 operand
        exact ⟨_, .register hn fits⟩
    | rom pos le wordPos wordLe word address =>
        obtain ⟨sa, ha⟩ := hasWidth_iff.1 address
        exact ⟨_, .rom pos le wordPos wordLe word ha⟩
    | ram pos le wordPos wordLe word read enable write data =>
        obtain ⟨sr, hr⟩ := hasWidth_iff.1 read
        obtain ⟨se, he⟩ := hasWidth_iff.1 enable
        obtain ⟨sw, hw⟩ := hasWidth_iff.1 write
        obtain ⟨sd, hd⟩ := hasWidth_iff.1 data
        exact ⟨_, .ram pos le wordPos wordLe word hr he hw hd⟩
  · rintro ⟨e, h⟩
    have typed : ∀ {position : Option Nat} {a : Operand} {s : Source} {v : Nat},
        scope.Resolves position a ⟨s, v⟩ → a.HasWidth (declaredIn scope) scope.limit position v :=
      fun h => hasWidth_iff.2 ⟨_, h⟩
    cases h with
    | unary gate operand => cases gate <;> exact .unary (by simp) (typed operand)
    | binary gate left right => cases gate <;> exact .binary (by simp) (typed left) (typed right)
    | mux selector first second => exact .mux (typed selector) (typed first) (typed second)
    | concat high low sum => exact .concat (typed high) (typed low) sum
    | extract operand bits => exact .extract (typed operand) bits
    | register operand fits => exact .register (typed operand) fits
    | rom pos le wordPos wordLe word address =>
        exact .rom pos le wordPos wordLe word (typed address)
    | ram pos le wordPos wordLe word read enable write data =>
        exact .ram pos le wordPos wordLe word (typed read) (typed enable) (typed write) (typed data)

end Equation

end Netlist
