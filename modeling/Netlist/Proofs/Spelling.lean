/-
Module: Netlist.Proofs.Spelling
Layer: Proofs
Purpose: Three ways to write an extraction. A single bit is the slice from its position to itself, and a
  slice is the snip whose upper bound is one higher. Every extraction but a snip up to zero can be put in the
  words of a slice, and so can every report about one. Checking an equation comes to the same before and
  after, so whole descriptions whose extractions are spelled differently compile to the same circuit, or are
  refused with reports that are the same in the words of slices.
Imports: Netlist.Circuit.Compile, Netlist.Proofs.Sequence
Main exports: Equation.Respells, Op.asSlice, Equation.asSlice, NetlistError.asSlice,
  Equation.part_asSlice, Description.compile_congr, Description.respelled_compiles_alike
-/
import Netlist.Circuit.Compile
import Netlist.Proofs.Sequence

namespace Netlist

/-!
### Spellings
-/

/-- Two equations are spellings of one another: they differ at most in how they write an extraction. -/
inductive Equation.Respells : Equation → Equation → Prop where
  | refl (eq : Equation) : Respells eq eq
  | symm {eq eq' : Equation} (h : Respells eq eq') : Respells eq' eq
  | trans {eq eq' eq'' : Equation} (h : Respells eq eq') (h' : Respells eq' eq'') : Respells eq eq''
  /-- Bit `i` is the range from `i` to `i`. -/
  | select (target : String) (a : Operand) (i : UInt32) (init : Option Word) :
      Respells ⟨target, .select, [a], [i], init⟩ ⟨target, .slice, [a], [i, i], init⟩
  /-- The upper bound of a snip is one past that of a slice, provided that it can still be written. -/
  | slice (target : String) (a : Operand) (low high : UInt32) (init : Option Word)
      (writable : high.toNat + 1 < UInt32.size) :
      Respells ⟨target, .slice, [a], [low, high], init⟩ ⟨target, .snip, [a], [low, high + 1], init⟩

/-- The slice among the operations that extract bits; every other operation itself. -/
def Op.asSlice : Op → Op
  | .select | .snip => .slice
  | op => op

/-- An extraction in the words of a slice. A snip up to zero extracts nothing, and no slice does that. -/
def Equation.asSlice (eq : Equation) : Equation :=
  match eq.op, eq.args, eq.params with
  | .select, [a], [i] => ⟨eq.target, .slice, [a], [i, i], eq.init⟩
  | .snip, [a], [low, high] =>
    if high = 0 then eq else ⟨eq.target, .slice, [a], [low, high - 1], eq.init⟩
  | _, _, _ => eq

/-- A report about an extraction in the words of a slice, whose upper bound is one below that of a snip.
    The cause, the net and all other numbers are those of the report. -/
def NetlistError.asSlice : NetlistError → NetlistError
  | .unexpectedInit net op => .unexpectedInit net op.asSlice
  | .widthMismatch net op what expected found => .widthMismatch net op.asSlice what expected found
  | .bitRange net op low high width =>
    .bitRange net op.asSlice low (if op = .snip then high - 1 else high) width
  | .untypedConstant net op value => .untypedConstant net op.asSlice value
  | fault => fault

/-- Spellings of one another are the same in the words of slices. -/
theorem Equation.Respells.asSlice_eq {eq eq' : Equation} (h : eq.Respells eq') :
    eq.asSlice = eq'.asSlice := by
  induction h with
  | refl => rfl
  | symm _ ih => exact ih.symm
  | trans _ _ ih ih' => exact ih.trans ih'
  | select => rfl
  | slice target a low high init writable =>
      have hnat : (high + 1).toNat = high.toNat + 1 := by
        rw [UInt32.toNat_add]
        exact Nat.mod_eq_of_lt writable
      have hne : high + 1 ≠ 0 := by
        intro hzero
        rw [hzero] at hnat
        cases hnat
      simp only [asSlice, if_neg hne, UInt32.add_sub_cancel]

/-!
### One equation
-/

namespace Equation

variable {eq eq' : Equation} {scope : Scope} {w : Nat}

/-- Resolving an operand depends on the equation only for its reports. -/
theorem resolve_asSlice (htarget : eq.target = eq'.target) (hop : eq.op.asSlice = eq'.op.asSlice)
    (a : Operand) (position : Option Nat) :
    (eq.resolve scope a position).mapError NetlistError.asSlice =
      (eq'.resolve scope a position).mapError NetlistError.asSlice := by
  cases a with
  | net name => rfl
  | const value width =>
      rw [resolve, resolve, htarget]
      cases (width.map UInt32.toNat).or position with
      | none =>
          apply congrArg Except.error
          rw [NetlistError.asSlice, NetlistError.asSlice, hop]
      | some v => rfl

theorem expectWidth_asSlice (htarget : eq.target = eq'.target)
    (hop : eq.op.asSlice = eq'.op.asSlice) (what : Place) (expected found : Nat) :
    (eq.expectWidth what expected found).mapError NetlistError.asSlice =
      (eq'.expectWidth what expected found).mapError NetlistError.asSlice := by
  rw [expectWidth, expectWidth, htarget]
  by_cases hsame : expected = found
  · rw [if_pos hsame, if_pos hsame]
  · rw [if_neg hsame, if_neg hsame]
    apply congrArg Except.error
    rw [NetlistError.asSlice, NetlistError.asSlice, hop]

/-- Two extractions come to the same if they start from the same bit of the same operand, allow the same
    widths of it and extract equally many bits wherever they do. -/
theorem extract_asSlice {a : Operand} {low high high' count count' : Nat} {inside inside' : Nat → Bool}
    (htarget : eq.target = eq'.target) (hop : eq.op.asSlice = eq'.op.asSlice)
    (hinside : inside = inside') (hcount : ∀ v, inside v = true → count = count')
    (hhigh : (if eq.op = .snip then high - 1 else high) =
      if eq'.op = .snip then high' - 1 else high') :
    (eq.extract scope w a low high count inside).mapError NetlistError.asSlice =
      (eq'.extract scope w a low high' count' inside').mapError NetlistError.asSlice := by
  subst hinside
  apply mapError_bind_congr (resolve_asSlice htarget hop a none)
  intro t _
  cases hin : inside t.width with
  | true =>
      rw [if_pos rfl, if_pos rfl, hcount t.width hin]
      apply mapError_bind_congr (expectWidth_asSlice htarget hop .result w count')
      intro _ _
      rfl
  | false =>
      rw [if_neg Bool.false_ne_true, if_neg Bool.false_ne_true]
      apply congrArg Except.error
      rw [NetlistError.asSlice, NetlistError.asSlice, htarget, hop, hhigh]

/-- Checking two equations comes to the same if their shapes and their elements do. -/
theorem part_congr (htarget : eq.target = eq'.target)
    (hshape : eq.checkShape.mapError NetlistError.asSlice =
      eq'.checkShape.mapError NetlistError.asSlice)
    (helement : ∀ w, (eq.element scope w).mapError NetlistError.asSlice =
      (eq'.element scope w).mapError NetlistError.asSlice) :
    (eq.part scope).mapError NetlistError.asSlice = (eq'.part scope).mapError NetlistError.asSlice := by
  rw [part, part, htarget]
  apply mapError_bind_congr rfl
  intro target _
  apply mapError_bind_congr hshape
  intro _ _
  apply mapError_bind_congr (helement (scope.width target))
  intro _ _
  rfl

/-- A bit is the slice from its position to itself. -/
theorem part_select (target : String) (a : Operand) (i : UInt32) (init : Option Word) (scope : Scope) :
    ((⟨target, .select, [a], [i], init⟩ : Equation).part scope).mapError NetlistError.asSlice =
      ((⟨target, .slice, [a], [i, i], init⟩ : Equation).part scope).mapError NetlistError.asSlice := by
  refine part_congr rfl ?_ ?_
  · cases init <;> rfl
  · intro w
    change (extract _ scope w a i.toNat i.toNat 1 (fun v => i.toNat < v)).mapError _ =
      (extract _ scope w a i.toNat i.toNat (i.toNat - i.toNat + 1)
        (fun v => i.toNat ≤ i.toNat && i.toNat < v)).mapError _
    refine extract_asSlice rfl rfl ?_ ?_ ?_
    · funext v
      rw [decide_eq_true (Nat.le_refl i.toNat), Bool.true_and]
    · intro v _
      omega
    · rfl

/-- A snip is the slice whose upper bound is one lower, unless it goes up to zero. -/
theorem part_snip (target : String) (a : Operand) (low high : UInt32) (init : Option Word)
    (scope : Scope) (hpos : high ≠ 0) :
    ((⟨target, .snip, [a], [low, high], init⟩ : Equation).part scope).mapError NetlistError.asSlice =
      ((⟨target, .slice, [a], [low, high - 1], init⟩ : Equation).part scope).mapError
        NetlistError.asSlice := by
  have hone : 1 ≤ high.toNat := Nat.one_le_iff_ne_zero.2 (fun h => hpos (UInt32.toNat_inj.1 h))
  have hbelow : (high - 1).toNat = high.toNat - 1 :=
    UInt32.toNat_sub_of_le high 1 (UInt32.le_iff_toNat_le.2 hone)
  refine part_congr rfl ?_ ?_
  · cases init <;> rfl
  · intro w
    change (extract _ scope w a low.toNat high.toNat (high.toNat - low.toNat)
        (fun v => low.toNat < high.toNat && high.toNat ≤ v)).mapError _ =
      (extract _ scope w a low.toNat (high - 1).toNat ((high - 1).toNat - low.toNat + 1)
        (fun v => low.toNat ≤ (high - 1).toNat && (high - 1).toNat < v)).mapError _
    rw [hbelow]
    refine extract_asSlice rfl rfl ?_ ?_ ?_
    · funext v
      rw [Bool.eq_iff_iff, Bool.and_eq_true, Bool.and_eq_true]
      simp only [decide_eq_true_eq]
      omega
    · intro v hinside
      simp only [Bool.and_eq_true, decide_eq_true_eq] at hinside
      omega
    · rfl

/-- Checking an equation comes to the same in the words of slices. -/
theorem part_asSlice (eq : Equation) (scope : Scope) :
    (eq.part scope).mapError NetlistError.asSlice =
      (eq.asSlice.part scope).mapError NetlistError.asSlice := by
  obtain ⟨target, op, args, params, init⟩ := eq
  rw [asSlice]
  split
  · next a i hop hargs hparams =>
      cases hop
      cases hargs
      cases hparams
      exact part_select target a i init scope
  · next a low high hop hargs hparams =>
      cases hop
      cases hargs
      cases hparams
      by_cases hzero : high = 0
      · rw [if_pos hzero]
      · rw [if_neg hzero]
        exact part_snip target a low high init scope hzero
  · rfl

end Equation

/-!
### Whole descriptions
-/

namespace Description

variable {config : Config}

/-- Compilation depends on the equations only through what checking each of them comes to. -/
theorem compile_congr (d : Description) {equations : List Equation}
    (h : List.Forall₂ (fun eq eq' : Equation => ∀ scope,
      (eq.part scope).mapError NetlistError.asSlice = (eq'.part scope).mapError NetlistError.asSlice)
      d.equations equations) :
    (d.compile config).mapError NetlistError.asSlice =
      ({ d with equations := equations }.compile config).mapError NetlistError.asSlice := by
  apply mapError_bind_congr rfl
  intro nets _
  apply mapError_bind_congr rfl
  intro inputs _
  apply mapError_bind_congr rfl
  intro outputs _
  apply mapError_bind_congr
  · apply mapError_mapM_congr
    exact h.imp (fun eq eq' hsame => hsame ⟨config.maxBusWidth, nets⟩)
  · intro parts _
    rfl

/-- The spelling of extractions does not matter. Let any number of extractions of a description be spelled
    differently: a select as a slice from a bit to itself, a slice as a snip whose upper bound is one higher,
    either the other way round, or one after the other. Then both descriptions compile, and to the same
    circuit; or both are refused, with reports that are the same in the words of slices, so of the same cause
    and about the same net. -/
theorem respelled_compiles_alike (d : Description) (config : Config) {equations : List Equation}
    (h : List.Forall₂ Equation.Respells d.equations equations) :
    (∃ c, d.compile config = .ok c ∧ { d with equations := equations }.compile config = .ok c) ∨
      ∃ fault fault', d.compile config = .error fault ∧
        { d with equations := equations }.compile config = .error fault' ∧
        fault.asSlice = fault'.asSlice := by
  rw [← mapError_eq_mapError_iff]
  apply compile_congr
  apply h.imp
  intro eq eq' hrespells scope
  rw [eq.part_asSlice scope, eq'.part_asSlice scope, hrespells.asSlice_eq]

/-- A byte of which the top bit, four bits in the middle and the two lowest are extracted. -/
def fields : Description where
  name := "fields"
  inputs := ["byte"]
  outputs := ["top", "middle", "rest"]
  nets := [⟨"byte", 8⟩, ⟨"top", 1⟩, ⟨"middle", 4⟩, ⟨"rest", 2⟩]
  equations := [
    { target := "top", op := .select, args := [.net "byte"], params := [7] },
    { target := "middle", op := .slice, args := [.net "byte"], params := [2, 5] },
    { target := "rest", op := .snip, args := [.net "byte"], params := [0, 2] }]

/-- The same with the top bit as a snip, the middle as a snip and the rest as a slice. -/
def refields : List Equation :=
  [{ target := "top", op := .snip, args := [.net "byte"], params := [7, 8] },
    { target := "middle", op := .snip, args := [.net "byte"], params := [2, 6] },
    { target := "rest", op := .slice, args := [.net "byte"], params := [0, 1] }]

/-- Both spellings of the fields compile to one circuit. -/
theorem refields_compiles_alike : List.Forall₂ Equation.Respells fields.equations refields ∧
    ∃ c, fields.compile .standard = .ok c ∧
      { fields with equations := refields }.compile .standard = .ok c := by
  have hrespells : List.Forall₂ Equation.Respells fields.equations refields := by
    refine .cons ?_ (.cons ?_ (.cons ?_ .nil))
    · exact .trans (.select _ _ _ _) (.slice _ _ _ _ _ (by decide))
    · exact .slice _ _ _ _ _ (by decide)
    · exact .symm (.slice _ _ _ _ _ (by decide))
  refine ⟨hrespells, ?_⟩
  rcases respelled_compiles_alike fields .standard hrespells with h | ⟨fault, -, hfault, -, -⟩
  · exact h
  · have hok : (fields.compile .standard).isOk = true := by decide +kernel
    rw [hfault] at hok
    cases hok

end Description

end Netlist
