/-
Module: Netlist.Proofs.Json.Number
Layer: Proofs
Purpose: Counts as numbers of a JSON text. The decimal digits of a count are one bare run, which reads as
  the number that was written and spells the count again; a count of 64 bits is finite. So a count is
  recovered from its text wherever a number may stand.
Imports: Mathlib.Data.List.TakeWhile, Netlist.Json.Token
Main exports: Json.Number.Legible, Json.Number.legible_ofNat, Json.Number.toNat?_ofNat,
  Json.Number.isFinite_ofNat, Json.toUInt32?_ofNat, Json.toUInt64?_ofNat
-/
import Mathlib.Data.List.TakeWhile
import Netlist.Json.Token

namespace Netlist.Json

namespace Number

/-- The spelling of a number is a bare run that reads as the number. -/
structure Legible (n : Number) : Prop where
  bare : ∀ c ∈ n.render, isBare c = true
  token : bareToken n.render = some (.num n)

/-!
### Decimal digits
-/

theorem isDigit_of_mem_digits {n : Nat} {c : Char} (h : c ∈ Nat.toDigits 10 n) : c.isDigit = true :=
  Nat.isDigit_of_mem_toDigits (by decide) (by decide) h

/-- The digits of a positive count do not start with zero. -/
theorem exists_digits_eq_cons {n : Nat} (h : 0 < n) :
    ∃ c rest, Nat.toDigits 10 n = c :: rest ∧ c ≠ '0' := by
  induction n using Nat.strongRecOn with
  | ind n ih =>
      rw [Nat.toDigits_eq_if (by decide)]
      split
      · refine ⟨n.digitChar, [], rfl, ?_⟩
        rw [ne_eq, Nat.digitChar_eq_zero]
        exact Nat.ne_of_gt h
      · next hle =>
          obtain ⟨c, rest, heq, hne⟩ := ih (n / 10) (by omega) (by omega)
          exact ⟨c, rest ++ [(n % 10).digitChar], by rw [heq, List.cons_append], hne⟩

theorem isWhole_digits (n : Nat) : isWhole (Nat.toDigits 10 n) = true := by
  rcases Nat.eq_zero_or_pos n with rfl | hpos
  · rfl
  · obtain ⟨c, rest, heq, hne⟩ := exists_digits_eq_cons hpos
    rw [heq]
    cases rest with
    | nil => rfl
    | cons d rest => simpa [isWhole] using hne

/-!
### Counts
-/

@[simp] theorem render_ofNat (n : Nat) : (ofNat n).render = Nat.toDigits 10 n := by
  simp [ofNat, render]

/-- Bare digits without a needless zero read as a count. -/
theorem read_digits (n : Nat) : read (Nat.toDigits 10 n) = some (ofNat n) := by
  have hdigits : ∀ c ∈ Nat.toDigits 10 n, c.isDigit = true := fun c => isDigit_of_mem_digits
  have hunsigned : readUnsigned false (Nat.toDigits 10 n) = some (ofNat n) := by
    rw [readUnsigned, List.takeWhile_eq_self_iff.2 hdigits, List.dropWhile_eq_nil_iff.2 hdigits]
    simp [isWhole_digits, readExponent, ofNat]
  rw [read]
  · exact hunsigned
  · intro run hrun
    have hminus := hdigits '-' (by rw [hrun]; exact List.mem_cons_self)
    exact absurd hminus (by decide)

/-- A count reads back from its digits. -/
theorem legible_ofNat (n : Nat) : (ofNat n).Legible := by
  have hdigits : ∀ c ∈ (ofNat n).render, c.isDigit = true := by
    rw [render_ofNat]
    exact fun c => isDigit_of_mem_digits
  constructor
  case bare =>
    intro c hc
    simp [isBare, Char.isAlphanum, hdigits c hc]
  case token =>
    -- no name consists of digits
    have hname : ∀ (c : Char) (rest : List Char), c.isDigit = false → (ofNat n).render ≠ c :: rest := by
      intro c rest hc heq
      have htrue := hdigits c (by rw [heq]; exact List.mem_cons_self)
      rw [hc] at htrue
      cases htrue
    rw [bareToken, if_neg (hname _ _ (by decide)), if_neg (hname _ _ (by decide)),
      if_neg (hname _ _ (by decide)), render_ofNat, read_digits]
    rfl

/-- The digits of a count spell it. -/
@[simp] theorem toNat?_ofNat (n : Nat) : (ofNat n).toNat? = some n :=
  congrArg some Nat.ofDigitChars_ten_toDigits

/-!
### Finiteness
-/

theorem le_digitsValue (digits : List Char) (significand : Nat) :
    significand ≤ digits.foldl (fun value c => 10 * value + digitValue c) significand := by
  induction digits generalizing significand with
  | nil => exact Nat.le_refl _
  | cons c rest ih => exact Nat.le_trans (by omega) (ih (10 * significand + digitValue c))

/-- Digits whose value fits the significand are all taken into it. -/
theorem gatherWhole_of_lt {digits : List Char} {significand : Nat}
    (h : digits.foldl (fun value c => 10 * value + digitValue c) significand < significandLimit) :
    gatherWhole significand digits =
      (digits.foldl (fun value c => 10 * value + digitValue c) significand, 0) := by
  induction digits generalizing significand with
  | nil => rfl
  | cons c rest ih =>
      have hnext : 10 * significand + digitValue c < significandLimit :=
        Nat.lt_of_le_of_lt (le_digitsValue rest _) h
      rw [gatherWhole, if_pos hnext]
      exact ih h

/-- A count of 64 bits is its own significand, with no power of ten. -/
theorem parts_ofNat {n : Nat} (h : n < significandLimit) : (ofNat n).parts = (n, 0) := by
  have hvalue : (Nat.toDigits 10 n).foldl (fun value c => 10 * value + digitValue c) 0 = n :=
    Nat.ofDigitChars_ten_toDigits
  have hgather : gatherWhole 0 (Nat.toDigits 10 n) = (n, 0) := by
    rw [gatherWhole_of_lt (by rw [hvalue]; exact h), hvalue]
  simp [parts, ofNat, hgather, gatherFraction]

theorem divNearest_le (num den : Nat) : Numeric.divNearest num den ≤ num / den + 1 := by
  have hmod : num / den % 2 ≤ 1 := Nat.le_of_lt_succ (Nat.mod_lt _ (by decide))
  simp only [Numeric.divNearest]
  split
  · exact Nat.le_refl _
  · split
    · omega
    · omega

/-- Rounding adds at most one unit in the last place, which is no more than the number itself. -/
theorem roundNat_le {n : Nat} (h : 0 < n) : Numeric.Binary64.roundNat n ≤ 2 * n := by
  have hunit : 2 ^ (n.log2 + 1 - Numeric.Binary64.precision) ≤ n := by
    refine Nat.le_trans (Nat.pow_le_pow_right (by decide) ?_) (Nat.log2_self_le (Nat.ne_of_gt h))
    have hprecision : 1 ≤ Numeric.Binary64.precision := by decide
    omega
  generalize hu : 2 ^ (n.log2 + 1 - Numeric.Binary64.precision) = unit at hunit
  have hround : Numeric.Binary64.roundNat n = Numeric.divNearest n unit * unit := by
    rw [← hu]
    rfl
  calc Numeric.Binary64.roundNat n = Numeric.divNearest n unit * unit := hround
    _ ≤ (n / unit + 1) * unit := Nat.mul_le_mul_right unit (divNearest_le n unit)
    _ = n / unit * unit + unit := by rw [Nat.add_mul, Nat.one_mul]
    _ ≤ n + n := Nat.add_le_add (Nat.div_mul_le_self n unit) hunit
    _ = 2 * n := (Nat.two_mul n).symm

/-- A count of 64 bits is finite. -/
theorem isFinite_ofNat {n : Nat} (h : n < significandLimit) : (ofNat n).isFinite = true := by
  rw [isFinite, parts_ofNat h]
  simp only
  split
  · rfl
  · next hpos =>
      have hround := roundNat_le (n := n) (by omega)
      have hone : Numeric.Binary64.roundNat (Nat.pow 10 (Int.toNat 0)) = 1 := by decide
      have hlimit : 2 * significandLimit ≤ Numeric.Binary64.overflowLimit := by decide +kernel
      rw [if_neg (by decide), hone, Nat.mul_one, decide_eq_true_eq]
      omega

end Number

theorem toNatBelow?_ofNat {bound n : Nat} (h : n < bound) : (ofNat n).toNatBelow? bound = some n := by
  simp [ofNat, toNatBelow?, h]

@[simp] theorem toUInt32?_ofNat (n : UInt32) : (ofNat n.toNat).toUInt32? = some n := by
  simp [toUInt32?, toNatBelow?_ofNat n.toNat_lt_size]

@[simp] theorem toUInt64?_ofNat (n : UInt64) : (ofNat n.toNat).toUInt64? = some n := by
  simp [toUInt64?, toNatBelow?_ofNat n.toNat_lt_size]

end Netlist.Json
