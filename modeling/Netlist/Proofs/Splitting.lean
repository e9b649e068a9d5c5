/-
Module: Netlist.Proofs.Splitting
Layer: Proofs
Purpose: Cutting a bus and joining the pieces. The pieces of a bus between consecutive cuts can be extracted
  and concatenated again, the higher piece always first, in any grouping. What a concatenation of two
  neighbouring ranges carries is the range that they make up, so by induction over the grouping the whole
  comes back. The other way round, the two ranges of a concatenation at the border of its sides carry the
  sides.
Imports: Netlist.Proofs.Fault.Description, Netlist.Proofs.Meaning, Netlist.Proofs.Reordered
Main exports: bitRange, bitRange_join, Description.Extracted, Description.Rejoined,
  Description.Explains.value_lt, Description.Rejoined.value_eq, Description.rejoined_pieces_restore_bus
-/
import Netlist.Proofs.Fault.Description
import Netlist.Proofs.Meaning
import Netlist.Proofs.Reordered

namespace Netlist

/-!
### Ranges of bits
-/

/-- The bits of a number from position `low` up to, but without, position `high`. -/
def bitRange (v low high : Nat) : Nat :=
  v / 2 ^ low % 2 ^ (high - low)

/-- A number is its own range of as many bits as it has. -/
theorem bitRange_of_lt {v w : Nat} (h : v < 2 ^ w) : bitRange v 0 w = v := by
  rw [bitRange, Nat.pow_zero, Nat.div_one, Nat.sub_zero, Nat.mod_eq_of_lt h]

/-- Neighbouring ranges make up one range. -/
theorem bitRange_join (v : Nat) {low mid high : Nat} (hlow : low ≤ mid) (hhigh : mid ≤ high) :
    bitRange v mid high * 2 ^ (mid - low) + bitRange v low mid = bitRange v low high := by
  have hshift : v / 2 ^ mid = v / 2 ^ low / 2 ^ (mid - low) := by
    rw [Nat.div_div_eq_div_mul, ← Nat.pow_add, Nat.add_sub_cancel' hlow]
  have hsplit : 2 ^ (high - low) = 2 ^ (mid - low) * 2 ^ (high - mid) := by
    rw [← Nat.pow_add]
    congr 1
    omega
  rw [bitRange, bitRange, bitRange, hshift, hsplit, Nat.mod_mul, Nat.add_comm, Nat.mul_comm]

/-- The upper range of a join is its high side. -/
theorem bitRange_upper_join {hi lo hw lw : Nat} (hhi : hi < 2 ^ hw) (hlo : lo < 2 ^ lw) :
    bitRange (hi * 2 ^ lw + lo) lw (hw + lw) = hi := by
  rw [bitRange, Nat.add_sub_cancel, Nat.mul_comm, Nat.mul_add_div (Nat.two_pow_pos lw),
    Nat.div_eq_of_lt hlo, Nat.add_zero, Nat.mod_eq_of_lt hhi]

/-- The lower range of a join is its low side. -/
theorem bitRange_lower_join (hi : Nat) {lo lw : Nat} (hlo : lo < 2 ^ lw) :
    bitRange (hi * 2 ^ lw + lo) 0 lw = lo := by
  rw [bitRange, Nat.pow_zero, Nat.div_one, Nat.sub_zero, Nat.mul_comm, Nat.mul_add_mod,
    Nat.mod_eq_of_lt hlo]

namespace Description

/-!
### Pieces and what they make up
-/

/-- Net `name` is extracted from net `a`, with the bits from `low` up to, but without, `high`. -/
inductive Extracted (d : Description) (a : String) : Nat → Nat → String → Prop where
  | select {name : String} {i : UInt32}
      (equation : ⟨name, .select, [.net a], [i], none⟩ ∈ d.equations) :
      Extracted d a i.toNat (i.toNat + 1) name
  | slice {name : String} {low high : UInt32}
      (equation : ⟨name, .slice, [.net a], [low, high], none⟩ ∈ d.equations) :
      Extracted d a low.toNat (high.toNat + 1) name
  | snip {name : String} {low high : UInt32}
      (equation : ⟨name, .snip, [.net a], [low, high], none⟩ ∈ d.equations) :
      Extracted d a low.toNat high.toNat name

/-- Net `name` puts together again the pieces of net `a` between `low`, the given cuts and `high`. Without a
    cut there is one piece. Any cut may be the last one to be closed: what is above it is then concatenated
    with what is below. -/
inductive Rejoined (d : Description) (a : String) : Nat → List Nat → Nat → String → Prop where
  | piece {low high : Nat} {name : String} (extracted : d.Extracted a low high name) :
      Rejoined d a low [] high name
  | concat {low mid high : Nat} {below above : List Nat} {name hi lo : String}
      (equation : ⟨name, .concat, [.net hi, .net lo], [], none⟩ ∈ d.equations)
      (upper : Rejoined d a mid above high hi) (lower : Rejoined d a low below mid lo) :
      Rejoined d a low (below ++ mid :: above) high name

variable {d : Description} {limit : Nat} {rom : RomStore} {vector : InputVector}
  {sim sim' : Simulator} {output : OutputVector} {V : String → Nat} {a name : String}

/-!
### Values
-/

/-- Every net has a value of its width during a step. -/
theorem Explains.value_lt {inputs outputs : List Pin} {parts : List Part} {schedule : List Nat}
    (hV : d.Explains rom vector sim sim' output V) (h : d.Checked limit inputs outputs parts)
    (hfits : sim.Fits (d.scope limit) (d.circuit inputs outputs parts schedule) rom)
    (hfits' : sim'.Fits (d.scope limit) (d.circuit inputs outputs parts schedule) rom) {w : Nat}
    (hw : d.width? name = some w) : V name < 2 ^ w := by
  rcases (width?_eq_some_iff_mem h.names).1 hw with ⟨decl, hdecl, rfl, rfl⟩
  -- a register shows its value from the step before the step, every other net after it
  by_cases hreg : ∃ eq ∈ d.equations, eq.target = decl.name ∧ eq.op = .reg
  · rcases hreg with ⟨eq, heq, htarget, hop⟩
    rcases hV.registers eq heq hop with ⟨v, hpeek, hv⟩
    rcases h.peek?_fits hfits hdecl with ⟨v', hpeek', hlt⟩
    rw [htarget] at hpeek hv
    cases hpeek.symm.trans hpeek'
    exact hv ▸ hlt
  · have hother : ∀ eq ∈ d.equations, eq.target = decl.name → eq.op ≠ .reg :=
      fun eq heq htarget hop => hreg ⟨eq, heq, htarget, hop⟩
    rcases hV.nets_after decl hdecl hother with ⟨v, hpeek, hv⟩
    rcases h.peek?_fits hfits' hdecl with ⟨v', hpeek', hlt⟩
    cases hpeek.symm.trans hpeek'
    exact hv ▸ hlt

section Values

variable (h : d.WellFormed limit) (hV : d.Explains rom vector sim sim' output V)

include h hV

/-- An equation that is no register obeys the rule of its operation at the width of its target, and during a
    step its target has the value that it denotes. -/
theorem Explains.equation_holds {eq : Equation} (heq : eq ∈ d.equations) (hop : eq.op ≠ .reg) :
    ∃ w roms rams, d.width? eq.target = some w ∧ eq.WellTyped d.width? limit w ∧
      V eq.target = eq.denote d.width? w V roms rams := by
  rcases List.mem_iff_getElem?.1 heq with ⟨k, hk⟩
  rcases hV.equations k eq hk hop with ⟨w, hw, hvalue⟩
  exact ⟨w, _, _, hw, h.typed eq heq w hw, hvalue⟩

/-- An extracted net is as wide as its range and carries it. -/
theorem Extracted.value_eq {low high : Nat} (hextracted : d.Extracted a low high name) :
    low < high ∧ d.width? name = some (high - low) ∧ V name = bitRange (V a) low high := by
  cases hextracted with
  | @select _ i equation =>
      rcases hV.equation_holds h equation nofun with ⟨w, _, _, hw, htyped, hvalue⟩
      rcases htyped.rule with ⟨_, _, _, -, -, hbits⟩
      cases hbits with
      | select inside =>
          refine ⟨Nat.lt_succ_self _, ?_, ?_⟩
          · rw [hw, Nat.add_sub_cancel_left]
          · rw [hvalue, bitRange, Nat.add_sub_cancel_left, Nat.pow_one]
            rfl
  | @slice _ low high equation =>
      rcases hV.equation_holds h equation nofun with ⟨w, _, _, hw, htyped, hvalue⟩
      rcases htyped.rule with ⟨_, _, _, -, -, hbits⟩
      cases hbits with
      | slice ordered inside =>
          have hcount : high.toNat - low.toNat + 1 = high.toNat + 1 - low.toNat := by omega
          refine ⟨Nat.lt_succ_of_le ordered, ?_, ?_⟩
          · rw [hw, hcount]
          · rw [hvalue, bitRange, ← hcount]
            rfl
  | @snip _ low high equation =>
      rcases hV.equation_holds h equation nofun with ⟨w, _, _, hw, htyped, hvalue⟩
      rcases htyped.rule with ⟨_, _, _, -, -, hbits⟩
      cases hbits with
      | snip ordered inside => exact ⟨ordered, hw, hvalue⟩

/-- A concatenation is as wide as its sides together and carries the one above the other. -/
theorem Explains.concat {target : String} {hi lo : Operand} {w hw lw : Nat}
    (equation : ⟨target, .concat, [hi, lo], [], none⟩ ∈ d.equations)
    (hwidth : d.width? target = some w)
    (hhi : hi.HasWidth d.width? limit (lo.leaves? d.width? w) hw)
    (hlo : lo.HasWidth d.width? limit (hi.leaves? d.width? w) lw) :
    hw + lw = w ∧ V target = hi.value V * 2 ^ lw + lo.value V := by
  rcases hV.equation_holds h equation nofun with ⟨w', _, _, hw', htyped, hvalue⟩
  cases hwidth.symm.trans hw'
  rcases htyped.rule with ⟨_, _, v, u, hargs, hhi', hlo', hsum⟩
  cases hargs
  rw [hhi.unique hhi', hlo.unique hlo']
  refine ⟨hsum, ?_⟩
  rw [hvalue, ← hlo'.widthBeside_eq]
  rfl

/-- What puts pieces together again is as wide as they are and carries all that lies between the outer
    cuts. -/
theorem Rejoined.value_eq {low high : Nat} {cuts : List Nat}
    (hrejoined : d.Rejoined a low cuts high name) :
    low < high ∧ d.width? name = some (high - low) ∧ V name = bitRange (V a) low high := by
  induction hrejoined with
  | piece extracted => exact extracted.value_eq h hV
  | @concat low mid high _ _ name hi lo equation _ _ ihUpper ihLower =>
      rcases ihUpper with ⟨hmid, hhi, hupper⟩
      rcases ihLower with ⟨hlow, hlo, hlower⟩
      rcases hV.equation_holds h equation nofun with ⟨w, _, _, hw, -, -⟩
      rcases hV.concat h equation hw (.net hhi) (.net hlo) with ⟨hsum, hvalue⟩
      -- the width of the lower side is how far up the concatenation moves the upper side
      refine ⟨hlow.trans hmid, ?_, ?_⟩
      · rw [hw, ← hsum]
        congr 1
        omega
      · rw [hvalue, ← bitRange_join (V a) hlow.le hmid.le, ← hupper, ← hlower]
        rfl

end Values

/-!
### Round trips
-/

/-- Cutting a bus and joining the pieces is the identity, and the other way round. In every step of every
    simulation of a description that compiles, a net that puts together again all pieces of a net of `w` bits
    carries what that net carries, for all cuts and groupings; and the two ranges of a concatenation that meet
    at the border of its sides carry what the sides carry. -/
theorem rejoined_pieces_restore_bus {d : Description} {config : Config} {c : Circuit}
    (h : d.compile config = .ok c) (rom : RomStore) (settings : Config) (sequence : List Call)
    (vector : InputVector) {output : OutputVector} {sim' : Simulator}
    (hok : ((Simulator.create c rom settings).calls sequence).step vector = .ok (output, sim')) :
    (∃ V, d.Explains rom vector ((Simulator.create c rom settings).calls sequence) sim' output V) ∧
    ∀ V, d.Explains rom vector ((Simulator.create c rom settings).calls sequence) sim' output V →
      (∀ a w cuts result, d.width? a = some w → d.Rejoined a 0 cuts w result → V result = V a) ∧
      (∀ target hi lo w hw lw, ⟨target, .concat, [hi, lo], [], none⟩ ∈ d.equations →
        d.width? target = some w →
        hi.HasWidth d.width? config.maxBusWidth (lo.leaves? d.width? w) hw →
        lo.HasWidth d.width? config.maxBusWidth (hi.leaves? d.width? w) lw →
        (∀ upper, d.Extracted target lw (hw + lw) upper → V upper = hi.value V) ∧
        (∀ lower, d.Extracted target 0 lw lower → V lower = lo.value V)) := by
  have hformed := wellFormed_of_compile h
  rcases compile_eq_ok_iff.1 h with ⟨inputs, outputs, parts, schedule, hchecked, hschedule, rfl⟩
  have hfits : ((Simulator.create (d.circuit inputs outputs parts schedule) rom settings).calls
      sequence).Fits (d.scope config.maxBusWidth) (d.circuit inputs outputs parts schedule) rom :=
    hchecked.fits_calls rom settings sequence
  refine ⟨hchecked.explains hschedule hfits hok, ?_⟩
  intro V hV
  have hlt : ∀ name w, d.width? name = some w → V name < 2 ^ w :=
    fun _ _ hw => hV.value_lt hchecked hfits (hchecked.fits_step hfits hok).1 hw
  constructor
  · intro a w cuts result hw hrejoined
    rcases hrejoined.value_eq hformed hV with ⟨-, -, hvalue⟩
    rw [hvalue, bitRange_of_lt (hlt a w hw)]
  · intro target hi lo w hw lw equation hwidth hhi hlo
    rcases hV.concat hformed equation hwidth hhi hlo with ⟨-, hvalue⟩
    constructor
    · intro upper hupper
      rcases hupper.value_eq hformed hV with ⟨-, -, hrange⟩
      rw [hrange, hvalue, bitRange_upper_join (hhi.value_lt hlt) (hlo.value_lt hlt)]
    · intro lower hlower
      rcases hlower.value_eq hformed hV with ⟨-, -, hrange⟩
      rw [hrange, hvalue, bitRange_lower_join _ (hlo.value_lt hlt)]

/-- A full word of which the lowest bit, the top bit and all bits in between are joined again, and then cut
    below the top bit. -/
def splice : Description where
  name := "splice"
  inputs := ["bus"]
  outputs := ["whole"]
  nets := [⟨"bus", 64⟩, ⟨"bottom", 1⟩, ⟨"middle", 62⟩, ⟨"top", 1⟩, ⟨"lower", 63⟩, ⟨"whole", 64⟩,
    ⟨"first", 1⟩, ⟨"rest", 63⟩]
  equations := [
    { target := "bottom", op := .select, args := [.net "bus"], params := [0] },
    { target := "middle", op := .slice, args := [.net "bus"], params := [1, 62] },
    { target := "top", op := .snip, args := [.net "bus"], params := [63, 64] },
    { target := "lower", op := .concat, args := [.net "middle", .net "bottom"] },
    { target := "whole", op := .concat, args := [.net "top", .net "lower"] },
    { target := "first", op := .snip, args := [.net "whole"], params := [63, 64] },
    { target := "rest", op := .snip, args := [.net "whole"], params := [0, 63] }]

theorem rejoined_splice : splice.Rejoined "bus" 0 [1, 63] 64 "whole" := by
  have htop : splice.Extracted "bus" 63 64 "top" := @Extracted.snip _ _ _ 63 64 (by decide)
  have hmiddle : splice.Extracted "bus" 1 63 "middle" := @Extracted.slice _ _ _ 1 62 (by decide)
  have hbottom : splice.Extracted "bus" 0 1 "bottom" := @Extracted.select _ _ _ 0 (by decide)
  have hlower : splice.Rejoined "bus" 0 [1] 63 "lower" :=
    .concat (by decide) (.piece hmiddle) (.piece hbottom)
  exact .concat (by decide) (.piece htop) hlower

/-- In the second step of the splice the word is restored, and so are the two sides of the last join. -/
theorem splice_restores_bus :
    ∃ c output sim', splice.compile .standard = .ok c ∧
      ((Simulator.create c (RomStore.ofCircuit c .standard) .standard).calls
        [.step (.ofList [("bus", 1)])]).step (.ofList [("bus", 0x8000000000000005)]) =
        .ok (output, sim') ∧
      ∃ V, splice.Explains (RomStore.ofCircuit c .standard) (.ofList [("bus", 0x8000000000000005)])
          ((Simulator.create c (RomStore.ofCircuit c .standard) .standard).calls
            [.step (.ofList [("bus", 1)])]) sim' output V ∧
        V "whole" = V "bus" ∧ V "first" = V "top" ∧ V "rest" = V "lower" := by
  rcases exists_eq_ok_of_isOk (x := splice.compile .standard) (by decide +kernel) with ⟨c, hc⟩
  have hstep : (match splice.compile .standard with
      | .ok c => (((Simulator.create c (RomStore.ofCircuit c .standard) .standard).calls
          [.step (.ofList [("bus", 1)])]).step (.ofList [("bus", 0x8000000000000005)])).isOk
      | .error _ => false) = true := by
    decide +kernel
  rw [hc] at hstep
  rcases exists_eq_ok_of_isOk hstep with ⟨⟨output, sim'⟩, hok⟩
  rcases rejoined_pieces_restore_bus hc _ _ _ _ hok with ⟨⟨V, hV⟩, hall⟩
  rcases hall V hV with ⟨hidentity, hsides⟩
  have hjoin := hsides "whole" (.net "top") (.net "lower") 64 1 63 (by decide) (by decide)
    (.net (by decide)) (.net (by decide))
  refine ⟨c, output, sim', hc, hok, V, hV, ?_, ?_, ?_⟩
  · exact hidentity "bus" 64 _ "whole" (by decide) rejoined_splice
  · exact hjoin.1 "first" (@Extracted.snip _ _ _ 63 64 (by decide))
  · exact hjoin.2 "rest" (@Extracted.snip _ _ _ 0 63 (by decide))

end Description

end Netlist
