/-
Module: Netlist.Proofs.Denotation
Layer: Proofs
Purpose: What equations mean. `Equation.denote` gives the value of the target of an equation in plain
  arithmetic of natural numbers, from the values of the nets by name and the contents of its memory. The
  gate that an equation becomes computes this value with masks and shifts of words, provided that every
  net carries a value of its width; and the value of a well typed equation again fits its target.
Imports: Netlist.Proofs.Assembly, Netlist.Proofs.Representation, Netlist.Proofs.Word
Main exports: Operand.value, Operand.widthBeside, Equation.denote, Scope.Carries, Scope.valuation,
  Equation.Elaborates.toNat_eval, Equation.Elaborates.denote_lt, Equation.Elaborates.eval_lt
-/
import Netlist.Proofs.Assembly
import Netlist.Proofs.Representation
import Netlist.Proofs.Word

namespace Netlist

/-!
### Meanings
-/

/-- The value of an operand when nets have the values `V`. -/
def Operand.value (V : String → Nat) : Operand → Nat
  | .net name => V name
  | .const value _ => value.toNat

/-- The width of one side of a concatenation: its own, or else what the other side leaves of `w` bits. -/
def Operand.widthBeside (declared : String → Option Nat) (w : Nat) (other side : Operand) : Nat :=
  (side.width? declared).getD (w - (other.width? declared).getD 0)

/-- The value of the target of an equation when the target is `w` bits wide and the nets have the values
    `V`. A memory equation reads `rom` or `ram`, which give the word at each address. A register has the
    value it took at the end of the last step, so its equation says nothing about its value now. -/
def Equation.denote (declared : String → Option Nat) (w : Nat) (V : String → Nat)
    (rom ram : Nat → Nat) (eq : Equation) : Nat :=
  match eq.op, eq.args, eq.params.map UInt32.toNat with
  | .copy, [a], _ => a.value V
  | .not, [a], _ => 2 ^ w - 1 - a.value V
  | .and, [a, b], _ => a.value V &&& b.value V
  | .or, [a, b], _ => a.value V ||| b.value V
  | .xor, [a, b], _ => a.value V ^^^ b.value V
  | .nand, [a, b], _ => 2 ^ w - 1 - (a.value V &&& b.value V)
  | .nxor, [a, b], _ => 2 ^ w - 1 - (a.value V ^^^ b.value V)
  | .mux, [sel, a, b], _ => if sel.value V = 0 then a.value V else b.value V
  | .concat, [hi, lo], _ => hi.value V * 2 ^ Operand.widthBeside declared w hi lo + lo.value V
  | .select, [a], [i] => a.value V / 2 ^ i % 2
  | .slice, [a], [low, high] => a.value V / 2 ^ low % 2 ^ (high - low + 1)
  | .snip, [a], [low, high] => a.value V / 2 ^ low % 2 ^ (high - low)
  | .rom, [addr], [_, wordWidth] => rom (addr.value V) % 2 ^ wordWidth
  | .ram, readAddr :: _, _ => ram (readAddr.value V)
  | _, _, _ => 0

namespace Operand

variable {declared : String → Option Nat} {limit w : Nat}

/-- An operand reads a value of its width when every net carries one of its own. -/
theorem HasWidth.value_lt {position : Option Nat} {a : Operand} {V : String → Nat}
    (h : a.HasWidth declared limit position w)
    (hV : ∀ name w, declared name = some w → V name < 2 ^ w) : a.value V < 2 ^ w := by
  cases h with
  | net known => exact hV _ _ known
  | const given pos le fits => exact fits

/-- The low side of a concatenation has the width that stands beside the high side. -/
theorem HasWidth.widthBeside_eq {hi lo : Operand} {lw : Nat}
    (hlo : lo.HasWidth declared limit (hi.leaves? declared w) lw) :
    widthBeside declared w hi lo = lw := by
  rw [widthBeside]
  cases hlo with
  | net known => rw [width?, known, Option.getD_some]
  | @const value width _ given pos le fits =>
      cases width with
      | some width => simpa [width?] using given
      | none =>
          simp only [Option.map_none, Option.none_or, leaves?] at given
          rcases Option.bind_eq_some_iff.1 given with ⟨other, hother, hleft⟩
          split at hleft
          · injection hleft with hleft
            have hnone : (Operand.const value none).width? declared = none := rfl
            rw [hnone, hother]
            exact hleft
          · cases hleft

end Operand

/-- Only a RAM equation depends on RAM contents. -/
theorem Equation.denote_congr_ram {eq : Equation} (hop : eq.op ≠ .ram)
    (declared : String → Option Nat) (w : Nat) (V : String → Nat) (rom ram ram' : Nat → Nat) :
    eq.denote declared w V rom ram = eq.denote declared w V rom ram' := by
  rw [denote, denote]
  split <;> first | rfl | exact absurd ‹_› hop

namespace Scope

variable {scope : Scope} {nets : NetTable}

/-- A table gives every net of a scope a value of its width. -/
structure Carries (scope : Scope) (nets : NetTable) : Prop where
  size_eq : nets.size = scope.nets.size
  value_lt : ∀ id : NetId, id.index < scope.nets.size →
    (NetTable.value nets id).toNat < 2 ^ scope.width id

/-- The values of nets by name, as numbers. -/
def valuation (scope : Scope) (nets : NetTable) (name : String) : Nat :=
  match scope.find name with
  | .ok id => (NetTable.value nets id).toNat
  | .error _ => 0

theorem valuation_of_find {name : String} {id : NetId} (h : scope.find name = .ok id) :
    scope.valuation nets name = (NetTable.value nets id).toNat := by
  rw [valuation, h]

/-- Changing the value of a net to one that fits leaves only values that fit. -/
theorem Carries.assign (h : scope.Carries nets) {id : NetId} {value : Word}
    (hvalue : value.toNat < 2 ^ scope.width id) :
    scope.Carries (NetTable.assign nets id value) := by
  refine ⟨by rw [NetTable.size_assign, h.size_eq], ?_⟩
  intro other hother
  by_cases heq : other = id
  · subst heq
    rw [NetTable.value_assign_self _ (by rw [h.size_eq]; exact hother)]
    exact hvalue
  · rw [NetTable.value_assign_of_ne _ heq]
    exact h.value_lt other hother

variable {position : Option Nat} {a : Operand} {s : Source} {w : Nat}

/-- A resolved operand reads the value of the operand. -/
theorem Resolves.toNat_read (h : scope.Resolves position a ⟨s, w⟩) (nets : NetTable) :
    (s.read nets).toNat = a.value (scope.valuation nets) := by
  cases h with
  | net found => exact (valuation_of_find found).symm
  | const given pos le fits => rfl

/-- A resolved operand reads a value of its width. -/
theorem Resolves.value_lt (h : scope.Resolves position a ⟨s, w⟩) (hscope : scope.Proper)
    (hnets : scope.Carries nets) : a.value (scope.valuation nets) < 2 ^ w := by
  rw [← h.toNat_read nets]
  cases h with
  | net found => exact hnets.value_lt _ (hscope.index_lt found)
  | const given pos le fits => exact fits

/-- Masking an operand to its width does not change its value. -/
theorem Resolves.toNat_read_and_mask (h : scope.Resolves position a ⟨s, w⟩) (hscope : scope.Proper)
    (hnets : scope.Carries nets) :
    (s.read nets &&& Word.mask w).toNat = a.value (scope.valuation nets) := by
  have hlt := h.value_lt hscope hnets
  rw [← h.toNat_read nets] at hlt ⊢
  exact Word.toNat_and_mask_of_lt hlt

theorem Resolves.widthBeside_eq {hi lo : Operand} {sl : Source} {lw : Nat}
    (hlo : scope.Resolves (hi.leaves? (Equation.declaredIn scope) w) lo ⟨sl, lw⟩) :
    Operand.widthBeside (Equation.declaredIn scope) w hi lo = lw :=
  (Equation.hasWidth_iff.2 ⟨sl, hlo⟩).widthBeside_eq

end Scope

/-!
### Gates compute meanings
-/

namespace Equation

variable {scope : Scope} {nets : NetTable} {eq : Equation} {part : Part} {gate : Gate}
  {memories : Memories} {roms rams : Nat}

/-- The gate of an equation computes what the equation means. -/
theorem Elaborates.toNat_eval (h : Elaborates scope part.width eq part.element)
    (hscope : scope.Proper) (hwidth : part.width ≤ scope.limit) (hnets : scope.Carries nets)
    (hgate : part.gate? roms rams = some gate) :
    (gate.eval nets memories).toNat =
      eq.denote (declaredIn scope) part.width (scope.valuation nets)
        (fun a => (memories.rom roms (UInt64.ofNat a)).toNat)
        (fun a => (memories.ram rams (UInt64.ofNat a)).toNat % 2 ^ part.width) := by
  rcases part with ⟨name, target, w, e⟩
  have hw : w ≤ Word.maxWidth := Nat.le_trans hwidth hscope.limit_le
  simp only at h
  cases h with
  | @unary _ _ _ a sa kind operand =>
      have ha := operand.toNat_read nets
      have hlt := operand.value_lt hscope hnets
      cases kind with
      | copy =>
          cases hgate
          exact ha
      | not =>
          cases hgate
          change (~~~(sa.read nets) &&& Word.mask w).toNat = 2 ^ w - 1 - a.value _
          rw [← ha] at hlt ⊢
          exact Word.toNat_not_and_mask hw hlt
  | @binary _ _ _ a b sa sb kind left right =>
      have ha := left.toNat_read nets
      have hb := right.toNat_read nets
      have halt := left.value_lt hscope hnets
      have hblt := right.value_lt hscope hnets
      cases kind with
      | and =>
          cases hgate
          change (sa.read nets &&& sb.read nets).toNat = a.value _ &&& b.value _
          rw [UInt64.toNat_and, ha, hb]
      | or =>
          cases hgate
          change (sa.read nets ||| sb.read nets).toNat = a.value _ ||| b.value _
          rw [UInt64.toNat_or, ha, hb]
      | xor =>
          cases hgate
          change (sa.read nets ^^^ sb.read nets).toNat = a.value _ ^^^ b.value _
          rw [UInt64.toNat_xor, ha, hb]
      | nand =>
          cases hgate
          change (~~~(sa.read nets &&& sb.read nets) &&& Word.mask w).toNat =
            2 ^ w - 1 - (a.value _ &&& b.value _)
          have hlt : (sa.read nets &&& sb.read nets).toNat < 2 ^ w := by
            rw [UInt64.toNat_and, ha, hb]
            exact Nat.and_lt_two_pow _ hblt
          rw [Word.toNat_not_and_mask hw hlt, UInt64.toNat_and, ha, hb]
      | nxor =>
          cases hgate
          change (~~~(sa.read nets ^^^ sb.read nets) &&& Word.mask w).toNat =
            2 ^ w - 1 - (a.value _ ^^^ b.value _)
          have hlt : (sa.read nets ^^^ sb.read nets).toNat < 2 ^ w := by
            rw [UInt64.toNat_xor, ha, hb]
            exact Nat.xor_lt_two_pow halt hblt
          rw [Word.toNat_not_and_mask hw hlt, UInt64.toNat_xor, ha, hb]
  | @mux _ sel a b ss sa sb selector first second =>
      cases hgate
      change (if ss.read nets = 0 then sa.read nets else sb.read nets).toNat =
        if sel.value _ = 0 then a.value _ else b.value _
      have hzero : ss.read nets = 0 ↔ sel.value (scope.valuation nets) = 0 := by
        rw [← selector.toNat_read nets, ← UInt64.toNat_inj]
        rfl
      by_cases hsel : ss.read nets = 0
      · rw [if_pos hsel, if_pos (hzero.1 hsel), first.toNat_read]
      · rw [if_neg hsel, if_neg (fun h0 => hsel (hzero.2 h0)), second.toNat_read]
  | @concat _ hi lo sh sl hw' lw high low sum =>
      cases hgate
      change (((sh.read nets <<< lw.toUInt64) ||| sl.read nets) &&& Word.mask w).toNat =
        hi.value _ * 2 ^ Operand.widthBeside (declaredIn scope) w hi lo + lo.value _
      have hhi := high.value_lt hscope hnets
      have hlo := low.value_lt hscope hnets
      have hpos := (high.width_mem hscope).1
      rw [low.widthBeside_eq, ← high.toNat_read nets, ← low.toNat_read nets]
      rw [← high.toNat_read nets] at hhi
      rw [← low.toNat_read nets] at hlo
      rw [← sum]
      exact Word.toNat_join (by omega) (by omega) hhi hlo
  | @extract _ _ _ a sa aw low operand bits =>
      cases hgate
      have hbits : (Word.bits (sa.read nets) low w).toNat =
          a.value (scope.valuation nets) / 2 ^ low % 2 ^ w := by
        rw [Word.toNat_bits, operand.toNat_read]
      cases bits with
      | select inside => exact hbits
      | slice ordered inside => exact hbits
      | snip ordered inside => exact hbits
  | register operand fits => cases hgate
  | @rom _ addr sa addrWidth wordWidth pos le wordPos wordLe word address =>
      cases hgate
      change (memories.rom roms (sa.read nets) &&& Word.mask w).toNat =
        (memories.rom roms (UInt64.ofNat (addr.value _))).toNat % 2 ^ wordWidth.toNat
      rw [Word.toNat_and_mask, ← address.toNat_read nets, UInt64.ofNat_toNat, word]
  | @ram _ readAddr _ _ _ sr _ _ _ addrWidth wordWidth pos le wordPos wordLe word read enable write data =>
      cases hgate
      change (memories.ram rams (sr.read nets) &&& Word.mask w).toNat =
        (memories.ram rams (UInt64.ofNat (readAddr.value _))).toNat % 2 ^ w
      rw [Word.toNat_and_mask, ← read.toNat_read nets, UInt64.ofNat_toNat]

/-- The meaning of an equation fits its target, if the words of its memory do. -/
theorem Elaborates.denote_lt {w : Nat} {e : Element} (h : Elaborates scope w eq e)
    (hscope : scope.Proper) (hnets : scope.Carries nets) (rom : Nat → Nat) {ram : Nat → Nat}
    (hram : ∀ a, ram a < 2 ^ w) :
    eq.denote (declaredIn scope) w (scope.valuation nets) rom ram < 2 ^ w := by
  have hpos : 0 < 2 ^ w := Nat.two_pow_pos w
  have hcomplement : ∀ n, 2 ^ w - 1 - n < 2 ^ w := fun n => by omega
  cases h with
  | unary kind operand =>
      cases kind with
      | copy => exact operand.value_lt hscope hnets
      | not => exact hcomplement _
  | binary kind left right =>
      have hleft := left.value_lt hscope hnets
      have hright := right.value_lt hscope hnets
      cases kind with
      | and => exact Nat.and_lt_two_pow _ hright
      | or => exact Nat.or_lt_two_pow hleft hright
      | xor => exact Nat.xor_lt_two_pow hleft hright
      | nand => exact hcomplement _
      | nxor => exact hcomplement _
  | mux selector first second =>
      simp only [denote]
      split
      · exact first.value_lt hscope hnets
      · exact second.value_lt hscope hnets
  | @concat _ hi lo _ _ hw lw high low sum =>
      have hhi := high.value_lt hscope hnets
      have hlo := low.value_lt hscope hnets
      change hi.value _ * 2 ^ Operand.widthBeside (declaredIn scope) w hi lo + lo.value _ < 2 ^ w
      rw [low.widthBeside_eq]
      calc hi.value (scope.valuation nets) * 2 ^ lw + lo.value (scope.valuation nets)
          < hi.value (scope.valuation nets) * 2 ^ lw + 2 ^ lw := Nat.add_lt_add_left hlo _
        _ = (hi.value (scope.valuation nets) + 1) * 2 ^ lw := by rw [Nat.add_mul, Nat.one_mul]
        _ ≤ 2 ^ hw * 2 ^ lw := Nat.mul_le_mul_right _ hhi
        _ = 2 ^ w := by rw [← Nat.pow_add, sum]
  | extract operand bits =>
      cases bits with
      | select inside => exact Nat.mod_lt _ (by decide)
      | slice ordered inside => exact Nat.mod_lt _ (Nat.two_pow_pos _)
      | snip ordered inside => exact Nat.mod_lt _ (Nat.two_pow_pos _)
  | register operand fits => exact hpos
  | rom pos le wordPos wordLe word address =>
      rw [← word]
      exact Nat.mod_lt _ (Nat.two_pow_pos _)
  | ram pos le wordPos wordLe word read enable write data => exact hram _

/-- The gate of an equation computes a value of its width. -/
theorem Elaborates.eval_lt (h : Elaborates scope part.width eq part.element) (hscope : scope.Proper)
    (hwidth : part.width ≤ scope.limit) (hnets : scope.Carries nets)
    (hgate : part.gate? roms rams = some gate) :
    (gate.eval nets memories).toNat < 2 ^ part.width := by
  rw [h.toNat_eval hscope hwidth hnets hgate]
  exact h.denote_lt hscope hnets _ (fun _ => Nat.mod_lt _ (Nat.two_pow_pos _))

end Equation

end Netlist
