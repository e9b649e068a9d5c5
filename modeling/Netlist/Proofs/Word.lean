/-
Module: Netlist.Proofs.Word
Layer: Proofs
Purpose: Bus words as natural numbers. A word is masked, tested, cut and joined with shifts and bitwise
  operations; here each of these is the arithmetic operation it stands for, so that everything about
  gates and memories can be said in plain arithmetic.
Imports: Mathlib.Data.Nat.Bitwise, Netlist.Word
Main exports: Word.toNat_and_mask, Word.fits_iff, Word.toNat_bits, Word.toNat_not_and_mask,
  Word.toNat_join
-/
import Mathlib.Data.Nat.Bitwise
import Netlist.Word

namespace Netlist

namespace Word

theorem toNat_lt_two_pow (v : Word) : v.toNat < 2 ^ maxWidth :=
  UInt64.toNat_lt v

theorem toNat_lt_of_maxWidth_le (v : Word) {w : Nat} (h : maxWidth ≤ w) : v.toNat < 2 ^ w :=
  lt_of_lt_of_le v.toNat_lt_two_pow (Nat.pow_le_pow_right (by decide) h)

/-- A shift distance below the widest bus is used as it is. -/
theorem toNat_distance {n : Nat} (h : n < maxWidth) : n.toUInt64.toNat % 64 = n := by
  have hsize : n < UInt64.size := lt_of_lt_of_le h (by decide)
  rw [show n.toUInt64.toNat = n from UInt64.toNat_ofNat_of_lt' hsize]
  exact Nat.mod_eq_of_lt h

/-- A shift to the left multiplies, as long as the product is a word. -/
theorem toNat_shiftLeft_of_lt {v : Word} {n : Nat} (h : n < maxWidth)
    (hfits : v.toNat * 2 ^ n < 2 ^ maxWidth) : (v <<< n.toUInt64).toNat = v.toNat * 2 ^ n := by
  rw [UInt64.toNat_shiftLeft, toNat_distance h, Nat.shiftLeft_eq]
  exact Nat.mod_eq_of_lt hfits

/-- The single bit at a position is the power of two. -/
theorem toNat_one_shiftLeft {n : Nat} (h : n < maxWidth) : ((1 : Word) <<< n.toUInt64).toNat = 2 ^ n := by
  have hfits : (1 : Word).toNat * 2 ^ n < 2 ^ maxWidth := by
    simpa using Nat.pow_lt_pow_right (a := 2) (by decide) h
  rw [toNat_shiftLeft_of_lt h hfits, UInt64.toNat_one, Nat.one_mul]

theorem one_le_one_shiftLeft {n : Nat} (h : n < maxWidth) : (1 : Word) ≤ 1 <<< n.toUInt64 := by
  rw [UInt64.le_iff_toNat_le, toNat_one_shiftLeft h]
  exact Nat.two_pow_pos n

theorem toNat_ofNat_of_lt {n : Nat} (h : n < 2 ^ maxWidth) : (UInt64.ofNat n).toNat = n :=
  UInt64.toNat_ofNat_of_lt' h

/-!
### Masks
-/

theorem toNat_mask_of_lt {w : Nat} (h : w < maxWidth) : (mask w).toNat = 2 ^ w - 1 := by
  rw [mask, if_neg (Nat.not_le.2 h), UInt64.toNat_sub_of_le _ _ (one_le_one_shiftLeft h),
    toNat_one_shiftLeft h, UInt64.toNat_one]

theorem toNat_mask_of_maxWidth_le {w : Nat} (h : maxWidth ≤ w) : (mask w).toNat = 2 ^ 64 - 1 := by
  rw [mask, if_pos h]
  rfl

/-- Masking a word to a width takes it modulo the power of two of that width. -/
theorem toNat_and_mask (v : Word) (w : Nat) : (v &&& mask w).toNat = v.toNat % 2 ^ w := by
  rw [UInt64.toNat_and]
  rcases Nat.lt_or_ge w maxWidth with h | h
  · rw [toNat_mask_of_lt h, Nat.and_two_pow_sub_one_eq_mod]
  · rw [toNat_mask_of_maxWidth_le h, Nat.and_two_pow_sub_one_eq_mod,
      Nat.mod_eq_of_lt (v.toNat_lt_of_maxWidth_le h)]
    exact Nat.mod_eq_of_lt v.toNat_lt_two_pow

theorem toNat_and_mask_lt (v : Word) (w : Nat) : (v &&& mask w).toNat < 2 ^ w := by
  rw [toNat_and_mask]
  exact Nat.mod_lt _ (Nat.two_pow_pos w)

theorem toNat_and_mask_of_lt {v : Word} {w : Nat} (h : v.toNat < 2 ^ w) :
    (v &&& mask w).toNat = v.toNat := by
  rw [toNat_and_mask, Nat.mod_eq_of_lt h]

/-- A word has no bit outside of a mask exactly when the mask leaves it as it is. -/
theorem and_not_eq_zero_iff (v m : Word) : v &&& ~~~m = 0 ↔ v &&& m = v := by
  simp only [← UInt64.toBitVec_inj, UInt64.toBitVec_and, UInt64.toBitVec_not]
  constructor
  · intro h
    ext i hi
    have hbit := congrArg (fun b => b[i]) h
    simp at hbit ⊢
    exact hbit
  · intro h
    ext i hi
    have hbit := congrArg (fun b => b[i]) h
    simp at hbit ⊢
    exact hbit

/-- A word fits a width exactly when it is below the power of two of that width. -/
theorem fits_iff {v : Word} {w : Nat} : fits v w = true ↔ v.toNat < 2 ^ w := by
  rw [fits, beq_iff_eq, and_not_eq_zero_iff, ← UInt64.toNat_inj, toNat_and_mask]
  exact Nat.mod_eq_iff_lt (Nat.two_pow_pos w).ne'

/-!
### Complements, pieces and joins
-/

theorem toNat_not_and_mask {v : Word} {w : Nat} (hw : w ≤ maxWidth) (hv : v.toNat < 2 ^ w) :
    (~~~v &&& mask w).toNat = 2 ^ w - 1 - v.toNat := by
  rw [toNat_and_mask, UInt64.toNat_not]
  have hsplit : UInt64.size = 2 ^ w * 2 ^ (64 - w) := by
    rw [← Nat.pow_add, show w + (64 - w) = 64 from Nat.add_sub_cancel' hw]
  have hpos : 0 < 2 ^ (64 - w) := Nat.two_pow_pos _
  -- the complement in all bits is the complement within the width plus a multiple of the power
  have hsum : UInt64.size - 1 - v.toNat =
      2 ^ w * (2 ^ (64 - w) - 1) + (2 ^ w - 1 - v.toNat) := by
    rw [hsplit, Nat.mul_sub, Nat.mul_one]
    have hle : 2 ^ w ≤ 2 ^ w * 2 ^ (64 - w) := Nat.le_mul_of_pos_right _ hpos
    omega
  rw [hsum, Nat.mul_add_mod]
  exact Nat.mod_eq_of_lt (by omega)

/-- A piece of a word is a quotient taken modulo the size of the piece. -/
theorem toNat_bits (v : Word) (low count : Nat) :
    (bits v low count).toNat = v.toNat / 2 ^ low % 2 ^ count := by
  rw [bits]
  rcases Nat.lt_or_ge low maxWidth with h | h
  · rw [if_neg (Nat.not_le.2 h), toNat_and_mask, UInt64.toNat_shiftRight, toNat_distance h,
      Nat.shiftRight_eq_div_pow]
  · rw [if_pos h, Nat.div_eq_of_lt (v.toNat_lt_of_maxWidth_le h), Nat.zero_mod]
    rfl

/-- Joining two words puts the first above the low word. -/
theorem toNat_join {hi lo : Word} {hw lw : Nat} (hwidth : hw + lw ≤ maxWidth) (hlow : lw < maxWidth)
    (hhi : hi.toNat < 2 ^ hw) (hlo : lo.toNat < 2 ^ lw) :
    (((hi <<< lw.toUInt64) ||| lo) &&& mask (hw + lw)).toNat = hi.toNat * 2 ^ lw + lo.toNat := by
  have hbound : hi.toNat * 2 ^ lw + lo.toNat < 2 ^ (hw + lw) := by
    calc hi.toNat * 2 ^ lw + lo.toNat
        < hi.toNat * 2 ^ lw + 2 ^ lw := Nat.add_lt_add_left hlo _
      _ = (hi.toNat + 1) * 2 ^ lw := by rw [Nat.add_mul, Nat.one_mul]
      _ ≤ 2 ^ hw * 2 ^ lw := Nat.mul_le_mul_right _ hhi
      _ = 2 ^ (hw + lw) := (Nat.pow_add 2 hw lw).symm
  have hfits : hi.toNat * 2 ^ lw < 2 ^ maxWidth := by
    calc hi.toNat * 2 ^ lw ≤ hi.toNat * 2 ^ lw + lo.toNat := Nat.le_add_right _ _
      _ < 2 ^ (hw + lw) := hbound
      _ ≤ 2 ^ maxWidth := Nat.pow_le_pow_right (by decide) hwidth
  -- the low bits of the shifted word are zero, so the disjunction is a sum
  have hor : (hi.toNat * 2 ^ lw) ||| lo.toNat = hi.toNat * 2 ^ lw + lo.toNat := by
    rw [← Nat.shiftLeft_eq, Nat.shiftLeft_add_eq_or_of_lt hlo]
  rw [toNat_and_mask, UInt64.toNat_or, toNat_shiftLeft_of_lt hlow hfits, hor]
  exact Nat.mod_eq_of_lt hbound

end Word

end Netlist
