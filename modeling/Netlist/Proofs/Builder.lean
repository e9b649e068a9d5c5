/-
Module: Netlist.Proofs.Builder
Layer: Proofs
Purpose: The widths that a builder works out. The calls that extract bits declare a net together with the
  equation that drives it, and the width that they declare is the number of bits in their range; where that
  is no 32-bit number, which is so for one range only, nothing is built. Every call adds declarations and
  equations behind those that are there, and no equation without a declaration of its target, so the two of
  a call stay together whatever is called before and after. When compilation compares widths at all, names
  differ and ranges end within 32 bits, so it never finds that an extraction and the net of its call differ.
Imports: Netlist.Description.Builder, Netlist.Proofs.Fault.Description, Netlist.Proofs.Reordered
Main exports: Equation.Fault.of_widthMismatch, Description.inclusiveExtent?_eq_some_iff,
  Description.BuilderCall, Description.built?, Description.BuilderCall.ExtractsInto, Description.Extends,
  Description.Paired, Description.BuilderCall.ExtractsInto.no_widthMismatch,
  Description.extractions_declare_demanded_widths
-/
import Netlist.Description.Builder
import Netlist.Proofs.Fault.Description
import Netlist.Proofs.Reordered

namespace Netlist

/-- A reported difference of widths is about the target of the equation, and for an extraction it is the
    number of bits that differs. -/
theorem Equation.Fault.of_widthMismatch {declared : String → Option Nat} {limit w : Nat} {eq : Equation}
    {target : String} {op : Op} {what : Place} {expected found : Nat}
    (h : eq.Fault declared limit w (.widthMismatch target op what expected found)) :
    eq.target = target ∧ (eq.op = .select ∨ eq.op = .slice ∨ eq.op = .snip →
      w ≠ found ∧ ∃ a v low, eq.args = [a] ∧ a.HasWidth declared limit none v ∧
        Extracts v eq.op eq.params low found) := by
  cases h with
  | operand _ _ wrong => cases wrong
  | operandWidth operand named =>
      refine ⟨rfl, fun hop => ?_⟩
      rcases hop with hop | hop | hop <;> rw [hop] at named <;> cases named
  | resultWidth yields differs =>
      refine ⟨rfl, fun hop => ⟨differs, ?_⟩⟩
      cases yields with
      | concat kind =>
          rw [kind] at hop
          simp at hop
      | extract operands operand bits => exact ⟨_, _, _, operands, operand, bits⟩
  | wordWidth kind =>
      refine ⟨rfl, fun hop => ?_⟩
      rcases kind with kind | kind <;> rw [kind] at hop <;> simp at hop

namespace Description

/-!
### Widths of ranges
-/

theorem toNat_extent (low high : UInt32) : (extent low high).toNat = high.toNat - low.toNat := by
  rw [extent]
  by_cases hle : low ≤ high
  · rw [if_pos hle, UInt32.toNat_sub_of_le high low hle]
  · have hlt : high.toNat < low.toNat := Nat.lt_of_not_le (fun h => hle (UInt32.le_iff_toNat_le.2 h))
    rw [if_neg hle, Nat.sub_eq_zero_of_le hlt.le]
    rfl

theorem inclusiveExtent?_eq_some_iff {low high width : UInt32} :
    inclusiveExtent? low high = some width ↔ width.toNat = high.toNat - low.toNat + 1 := by
  have hsum : high.toNat - low.toNat + 1 < UInt32.size →
      (extent low high + 1).toNat = high.toNat - low.toNat + 1 := by
    intro hlt
    rw [UInt32.toNat_add, toNat_extent]
    exact Nat.mod_eq_of_lt hlt
  rw [inclusiveExtent?, toNat_extent]
  by_cases hlt : high.toNat - low.toNat + 1 < UInt32.size
  · rw [if_pos hlt, Option.some_inj, ← UInt32.toNat_inj, hsum hlt, eq_comm]
  · rw [if_neg hlt]
    constructor
    · intro h
      cases h
    · intro h
      rw [← h] at hlt
      exact absurd width.toNat_lt hlt

/-- Only the largest difference of bounds leaves no room for one more. -/
theorem inclusiveExtent?_eq_none_iff {low high : UInt32} :
    inclusiveExtent? low high = none ↔ low = 0 ∧ high = 4294967295 := by
  have hhigh : high.toNat < UInt32.size := high.toNat_lt
  have hsize : UInt32.size = 4294967296 := rfl
  rw [inclusiveExtent?, toNat_extent, ite_eq_right_iff, ← UInt32.toNat_inj, ← UInt32.toNat_inj,
    UInt32.toNat_zero, show (4294967295 : UInt32).toNat = 4294967295 from rfl]
  constructor
  · intro h
    have hfull : ¬ high.toNat - low.toNat + 1 < UInt32.size := fun hlt => by cases h hlt
    omega
  · rintro ⟨hlow, hmax⟩ hlt
    omega

/-!
### Sequences of calls
-/

/-- A call of a builder. -/
inductive BuilderCall where
  | net (name : String) (width : UInt32)
  | input (name : String) (width : UInt32)
  | output (name : String)
  | equation (target : String) (width : UInt32) (op : Op) (args : List Operand) (params : List UInt32)
  | copy (target : String) (width : UInt32) (a : Operand)
  | not (target : String) (width : UInt32) (a : Operand)
  | binary (target : String) (width : UInt32) (op : Op) (a b : Operand)
  | and (target : String) (width : UInt32) (a b : Operand)
  | or (target : String) (width : UInt32) (a b : Operand)
  | xor (target : String) (width : UInt32) (a b : Operand)
  | mux (target : String) (width : UInt32) (sel a b : Operand)
  | reg (target : String) (width : UInt32) (next : Operand)
  | regInit (target : String) (width : UInt32) (next : Operand) (init : Word)
  | rom (target : String) (addrWidth wordWidth : UInt32) (addr : Operand)
  | ram (target : String) (addrWidth wordWidth : UInt32) (readAddr writeEnable writeAddr data : Operand)
  | concat (target : String) (width : UInt32) (hi lo : Operand)
  | select (target : String) (index : UInt32) (a : Operand)
  | slice (target : String) (low high : UInt32) (a : Operand)
  | snip (target : String) (low high : UInt32) (a : Operand)

/-- What a call makes of a description, if it makes something of it. -/
def BuilderCall.made? (d : Description) : BuilderCall → Option Description
  | .net name width => some (d.net name width)
  | .input name width => some (d.input name width)
  | .output name => some (d.output name)
  | .equation target width op args params => some (d.equation target width op args params)
  | .copy target width a => some (d.copy target width a)
  | .not target width a => some (d.not target width a)
  | .binary target width op a b => some (d.binary target width op a b)
  | .and target width a b => some (d.and target width a b)
  | .or target width a b => some (d.or target width a b)
  | .xor target width a b => some (d.xor target width a b)
  | .mux target width sel a b => some (d.mux target width sel a b)
  | .reg target width next => some (d.reg target width next)
  | .regInit target width next init => some (d.regInit target width next init)
  | .rom target addrWidth wordWidth addr => some (d.rom target addrWidth wordWidth addr)
  | .ram target addrWidth wordWidth readAddr writeEnable writeAddr data =>
    some (d.ram target addrWidth wordWidth readAddr writeEnable writeAddr data)
  | .concat target width hi lo => some (d.concat target width hi lo)
  | .select target index a => some (d.select target index a)
  | .slice target low high a => d.slice? target low high a
  | .snip target low high a => some (d.snip target low high a)

/-- The description that a sequence of calls builds, unless a call fails. -/
def built? (name : String) (calls : List BuilderCall) : Option Description :=
  calls.foldlM BuilderCall.made? (empty name)

/-- A call extracts bits of `a` into a net, whose width it works out by itself. The operation and the
    parameters are those of the equation, and `width` is what is declared. -/
inductive BuilderCall.ExtractsInto : BuilderCall → String → UInt32 → Op → Operand → List UInt32 → Prop where
  | select (target : String) (index : UInt32) (a : Operand) :
      ExtractsInto (.select target index a) target 1 .select a [index]
  | slice (target : String) {low high width : UInt32} (a : Operand)
      (counted : inclusiveExtent? low high = some width) :
      ExtractsInto (.slice target low high a) target width .slice a [low, high]
  | snip (target : String) (low high : UInt32) (a : Operand) :
      ExtractsInto (.snip target low high a) target (extent low high) .snip a [low, high]

variable {d d' d'' : Description} {call : BuilderCall} {name target : String} {width : UInt32} {op : Op}
  {a : Operand} {params : List UInt32}

/-- A call fails only if it is to extract 2³² bits, both bounds included. -/
theorem BuilderCall.made?_eq_none_iff :
    call.made? d = none ↔ ∃ target a, call = .slice target 0 4294967295 a := by
  cases call with
  | slice target low high a =>
      rw [made?, slice?, Option.map_eq_none_iff, inclusiveExtent?_eq_none_iff]
      simp
  | _ => simp [made?]

/-- A call that extracts bits adds its equation for a net of the width that it works out. -/
theorem BuilderCall.ExtractsInto.made?_eq (h : call.ExtractsInto target width op a params)
    (d : Description) : call.made? d = some (d.equation target width op [a] params) := by
  cases h with
  | slice target a counted => rw [made?, slice?, counted, Option.map_some]
  | select | snip => rfl

theorem built?_append_eq_some {before after : List BuilderCall}
    (h : built? name (before ++ call :: after) = some d) :
    ∃ earlier next, built? name before = some earlier ∧ call.made? earlier = some next ∧
      after.foldlM BuilderCall.made? next = some d := by
  rw [built?, List.foldlM_append] at h
  rcases Option.bind_eq_some_iff.1 h with ⟨earlier, hearlier, h⟩
  rw [List.foldlM_cons] at h
  rcases Option.bind_eq_some_iff.1 h with ⟨next, hnext, hlater⟩
  exact ⟨earlier, next, hearlier, hnext, hlater⟩

/-- A sequence of calls builds a description unless one of them fails. -/
theorem foldlM_made?_eq_none_iff {calls : List BuilderCall} :
    calls.foldlM BuilderCall.made? d = none ↔ ∃ target a, .slice target 0 4294967295 a ∈ calls := by
  induction calls generalizing d with
  | nil => simp
  | cons call rest ih =>
      rw [List.foldlM_cons]
      cases hcall : call.made? d with
      | none =>
          rcases BuilderCall.made?_eq_none_iff.1 hcall with ⟨target, a, rfl⟩
          exact iff_of_true rfl ⟨target, a, List.mem_cons_self⟩
      | some next =>
          have hother : ∀ target a, .slice target 0 4294967295 a ≠ call := by
            intro target a heq
            have hnone : call.made? d = none := BuilderCall.made?_eq_none_iff.2 ⟨target, a, heq.symm⟩
            rw [hcall] at hnone
            cases hnone
          rw [Option.bind_eq_bind, Option.bind_some, ih]
          simp only [List.mem_cons, hother, false_or]

/-!
### What calls leave in place
-/

/-- A description has the nets and the equations of another at the same places. -/
structure Extends (d d' : Description) : Prop where
  nets : d.nets <+: d'.nets
  equations : d.equations <+: d'.equations

theorem Extends.trans (h : d.Extends d') (h' : d'.Extends d'') : d.Extends d'' :=
  ⟨h.nets.trans h'.nets, h.equations.trans h'.equations⟩

/-- A call leaves everything where it is. -/
theorem extends_made? (h : call.made? d = some d') : d.Extends d' := by
  cases call with
  | output =>
      cases h
      exact ⟨List.prefix_rfl, List.prefix_rfl⟩
  | net | input =>
      cases h
      exact ⟨List.prefix_append _ _, List.prefix_rfl⟩
  | slice =>
      rcases Option.map_eq_some_iff.1 h with ⟨width, -, rfl⟩
      exact ⟨List.prefix_append _ _, List.prefix_append _ _⟩
  | _ =>
      cases h
      exact ⟨List.prefix_append _ _, List.prefix_append _ _⟩

/-- What every call preserves holds at the end of a sequence of calls. -/
theorem foldlM_made?_invariant {P : Description → Prop}
    (step : ∀ {earlier later call}, P earlier → BuilderCall.made? earlier call = some later → P later)
    {calls : List BuilderCall} (h : P d) (hcalls : calls.foldlM BuilderCall.made? d = some d') : P d' := by
  induction calls generalizing d with
  | nil =>
      cases hcalls
      exact h
  | cons call rest ih =>
      rw [List.foldlM_cons] at hcalls
      rcases Option.bind_eq_some_iff.1 hcalls with ⟨next, hnext, hrest⟩
      exact ih (step h hnext) hrest

theorem extends_foldlM {calls : List BuilderCall} (h : calls.foldlM BuilderCall.made? d = some d') :
    d.Extends d' :=
  foldlM_made?_invariant (P := d.Extends) (fun hearlier hcall => hearlier.trans (extends_made? hcall))
    ⟨List.prefix_rfl, List.prefix_rfl⟩ h

/-- Every equation has a declaration of its target for itself. -/
def Paired (d : Description) : Prop :=
  (d.equations.map Equation.target).Sublist (d.nets.map NetDecl.name)

theorem Paired.declare (h : d.Paired) (decl : NetDecl) :
    (d.equations.map Equation.target).Sublist ((d.nets ++ [decl]).map NetDecl.name) := by
  rw [List.map_append]
  exact h.trans (List.sublist_append_left _ _)

theorem Paired.drive (h : d.Paired) (decl : NetDecl) {eq : Equation} (htarget : eq.target = decl.name) :
    ((d.equations ++ [eq]).map Equation.target).Sublist ((d.nets ++ [decl]).map NetDecl.name) := by
  rw [List.map_append, List.map_append, List.map_singleton, List.map_singleton, htarget]
  exact h.append_right [decl.name]

/-- A call that adds an equation declares its target, so equations stay paired with declarations. -/
theorem Paired.made? (h : d.Paired) (hcall : call.made? d = some d') : d'.Paired := by
  cases call with
  | output =>
      cases hcall
      exact h
  | net | input =>
      cases hcall
      exact h.declare _
  | slice =>
      rcases Option.map_eq_some_iff.1 hcall with ⟨width, -, rfl⟩
      exact h.drive _ rfl
  | _ =>
      cases hcall
      exact h.drive _ rfl

theorem paired_built (h : built? name calls = some d) : d.Paired :=
  foldlM_made?_invariant Paired.made? (show (empty name).Paired from List.Sublist.slnil) h

/-- What a call declares and adds stands in the description, whatever is called before and after. -/
theorem BuilderCall.ExtractsInto.mem_built (h : call.ExtractsInto target width op a params)
    {before after : List BuilderCall} (hbuilt : built? name (before ++ call :: after) = some d) :
    (∃ earlier, built? name before = some earlier ∧
      d.nets[earlier.nets.length]? = some ⟨target, width⟩) ∧
    ⟨target, op, [a], params, none⟩ ∈ d.equations := by
  rcases built?_append_eq_some hbuilt with ⟨earlier, next, hearlier, hnext, hlater⟩
  have hextends := extends_foldlM hlater
  cases (h.made?_eq earlier).symm.trans hnext
  constructor
  · rcases hextends.nets with ⟨further, hnets⟩
    refine ⟨earlier, hearlier, ?_⟩
    rw [← hnets]
    simp [Description.equation, Description.net, Description.assign]
  · exact hextends.equations.subset (List.mem_append_right _ List.mem_cons_self)

/-!
### Reports about widths
-/

/-- Names differ when compilation gets as far as to compare widths. -/
theorem names_nodup_of_widthMismatch {config : Config} {what : Place} {expected found : Nat}
    (h : d.compile config = .error (.widthMismatch target op what expected found)) :
    (d.nets.map NetDecl.name).Nodup := by
  rcases bind_eq_error_iff.1 h with h | ⟨nets, hnets, -⟩
  · -- a net that cannot be declared has another fault
    rcases foldlM_eq_error_iff.1 h with ⟨_, decl, _, _, -, -, hdecl⟩
    rw [declareNet] at hdecl
    split at hdecl
    · cases hdecl
    · split at hdecl <;> cases hdecl
  · exact (declareNets_eq_ok_iff.1 hnets).1

/-- Where bits can be extracted, the width that the call works out is their number. -/
theorem BuilderCall.ExtractsInto.toNat_width (h : call.ExtractsInto target width op a params)
    {v low count : Nat} (hbits : Extracts v op params low count) :
    width.toNat = count := by
  cases h with
  | select =>
      cases hbits
      rfl
  | slice target a counted =>
      cases hbits
      exact inclusiveExtent?_eq_some_iff.1 counted
  | snip =>
      cases hbits
      exact toNat_extent _ _

/-- Compilation never finds that what a call extracts and the net that it declares have different widths. -/
theorem BuilderCall.ExtractsInto.no_widthMismatch (h : call.ExtractsInto target width op a params)
    (hpaired : d.Paired) (hdecl : ⟨target, width⟩ ∈ d.nets)
    (heq : ⟨target, op, [a], params, none⟩ ∈ d.equations) (hsize : d.nets.length ≤ UInt32.size)
    (config : Config) (op' : Op) (what : Place) (expected found : Nat) :
    d.compile config ≠ .error (.widthMismatch target op' what expected found) := by
  intro hcompile
  have hnames := names_nodup_of_widthMismatch hcompile
  cases fault_of_compile hsize hcompile with
  | @equation eq w _ given declared wrong =>
      rcases wrong.of_widthMismatch with ⟨htarget, hwrong⟩
      -- names differ, so the equation that is reported is the one of the call
      have hsame : eq = ⟨target, op, [a], params, none⟩ :=
        List.inj_on_of_nodup_map (hnames.sublist hpaired) given heq htarget
      subst hsame
      have hkind : op = .select ∨ op = .slice ∨ op = .snip := by
        cases h <;> simp
      rcases hwrong hkind with ⟨hdiffers, _, v, low, -, -, hbits⟩
      have hw : w = width.toNat := by
        rcases (width?_eq_some_iff_mem hnames).1 declared with ⟨decl, hmem, hname, rfl⟩
        rw [List.inj_on_of_nodup_map hnames hmem hdecl hname]
      exact hdiffers (hw.trans (h.toNat_width hbits))

/-!
### All sequences of calls
-/

/-- The calls that extract bits declare what compilation asks for. Nothing is built exactly when there is a
    slice of 2³² bits among the calls, since that is no width. In what is built, whatever is called before and
    after, the net of a snip is as wide as its bounds are apart, and the net of a slice one bit wider; bounds
    that are the wrong way round count as equal. Nor does compilation ever report that the net of such a call
    and what the call extracts have different widths. -/
theorem extractions_declare_demanded_widths (name : String) (calls : List BuilderCall) :
    (built? name calls = none ↔ ∃ target a, .slice target 0 4294967295 a ∈ calls) ∧
    ∀ d, built? name calls = some d →
      (∀ before after target low high a, calls = before ++ .slice target low high a :: after →
        ∃ earlier width, built? name before = some earlier ∧
          d.nets[earlier.nets.length]? = some ⟨target, width⟩ ∧
          width.toNat = high.toNat - low.toNat + 1) ∧
      (∀ before after target low high a, calls = before ++ .snip target low high a :: after →
        ∃ earlier width, built? name before = some earlier ∧
          d.nets[earlier.nets.length]? = some ⟨target, width⟩ ∧
          width.toNat = high.toNat - low.toNat) ∧
      (d.nets.length ≤ UInt32.size → ∀ call ∈ calls, ∀ target width op a params,
        call.ExtractsInto target width op a params → ∀ config op' what expected found,
          d.compile config ≠ .error (.widthMismatch target op' what expected found)) := by
  refine ⟨foldlM_made?_eq_none_iff, ?_⟩
  intro d hbuilt
  refine ⟨?_, ?_, ?_⟩
  · rintro before after target low high a rfl
    -- the slice has not failed, so its width can be counted
    rcases built?_append_eq_some hbuilt with ⟨_, _, -, hnext, -⟩
    rcases Option.map_eq_some_iff.1 hnext with ⟨width, hcounted, -⟩
    rcases (BuilderCall.ExtractsInto.slice target a hcounted).mem_built hbuilt with
      ⟨⟨earlier, hearlier, hdecl⟩, -⟩
    exact ⟨earlier, width, hearlier, hdecl, inclusiveExtent?_eq_some_iff.1 hcounted⟩
  · rintro before after target low high a rfl
    rcases (BuilderCall.ExtractsInto.snip target low high a).mem_built hbuilt with
      ⟨⟨earlier, hearlier, hdecl⟩, -⟩
    exact ⟨earlier, extent low high, hearlier, hdecl, toNat_extent low high⟩
  · intro hsize call hmem target width op a params hcall config op' what expected found
    have hpaired := paired_built hbuilt
    rcases List.append_of_mem hmem with ⟨before, after, rfl⟩
    rcases hcall.mem_built hbuilt with ⟨⟨earlier, -, hdecl⟩, heq⟩
    exact hcall.no_widthMismatch hpaired (List.mem_of_getElem? hdecl) heq hsize config op' what expected
      found

/-- A slice of four bits between an input and a snip with its bounds the wrong way round. The description is
    refused, but not for the width of the slice. -/
theorem four_bits_declared :
    ∃ d, built? "t" [.input "a" 8, .slice "s" 2 5 (.net "a"), .snip "p" 5 2 (.net "a")] = some d ∧
      (∃ earlier width, built? "t" [.input "a" 8] = some earlier ∧
        d.nets[earlier.nets.length]? = some ⟨"s", width⟩ ∧ width.toNat = 4) ∧
      d.compile .standard = .error (.invalidWidth "p" 0 64) ∧
      ∀ op' what expected found,
        d.compile .standard ≠ .error (.widthMismatch "s" op' what expected found) := by
  rcases extractions_declare_demanded_widths "t"
    [.input "a" 8, .slice "s" 2 5 (.net "a"), .snip "p" 5 2 (.net "a")] with ⟨-, hall⟩
  rcases hall _ rfl with ⟨hslice, -, hreports⟩
  refine ⟨_, rfl, ?_, by decide +kernel, ?_⟩
  · exact hslice [.input "a" 8] [.snip "p" 5 2 (.net "a")] "s" 2 5 (.net "a") rfl
  · exact hreports (by decide) (.slice "s" 2 5 (.net "a")) (.tail _ (.head _)) _ _ _ _ _
      (.slice "s" (.net "a") rfl) .standard

/-- The slice of 2³² bits has its bounds in order, and still nothing is built. -/
theorem full_slice_overflows :
    (0 : UInt32) ≤ 4294967295 ∧
      built? "t" [.input "a" 1, .slice "s" 0 4294967295 (.net "a")] = none := by
  exact ⟨by decide, rfl⟩

end Description

end Netlist
