/-
Module: Netlist.Proofs.Text.Hex
Layer: Proofs
Purpose: Which tokens are words. `Text.Hex.Numeral` says what digits in base sixteen spell, by their places
  and without reference to the reader; a word is spelled by a numeral, possibly behind a mark. The reader
  accepts these spellings and, besides them, those with a plus sign in front of the numeral. The digits
  that a word is printed with are a numeral, so a printed word reads back.
Imports: Mathlib.Data.Nat.Digits.Defs, Mathlib.Tactic.IntervalCases, Mathlib.Tactic.Ring,
  Netlist.Proofs.Sequence, Netlist.Rom.Image
Main exports: Text.Hex.IsDigit, Text.Hex.Numeral, Text.Hex.Spells, Text.Hex.parse_eq_some_iff,
  Text.Hex.parse_of_spells, Text.Hex.spells_hex, Text.Hex.parse_accepts_spellings
-/
import Mathlib.Data.Nat.Digits.Defs
import Mathlib.Tactic.IntervalCases
import Mathlib.Tactic.Ring
import Netlist.Proofs.Sequence
import Netlist.Rom.Image

namespace Netlist.Text.Hex

/-!
### Spellings
-/

/-- A character is the digit of a value, in lower or in upper case. -/
def IsDigit (c : Char) (d : Nat) : Prop :=
  "0123456789abcdef".toList[d]? = some c ∨ "0123456789ABCDEF".toList[d]? = some c

instance (c : Char) (d : Nat) : Decidable (IsDigit c d) :=
  inferInstanceAs (Decidable (_ ∨ _))

/-- One or more digits spell a number in base sixteen, the most significant one first. -/
structure Numeral (digits : List Char) (n : Nat) : Prop where
  nonempty : digits ≠ []
  places : ∃ ds, List.Forall₂ IsDigit digits ds ∧ Nat.ofDigits 16 ds.reverse = n

/-- What may stand in front of a numeral. -/
def marks : List (List Char) :=
  [[], ['0', 'x'], ['0', 'X']]

/-- A token spells a word: it is a numeral, possibly behind a mark. -/
def Spells (token : List Char) (v : Word) : Prop :=
  ∃ mark ∈ marks, ∃ digits, token = mark ++ digits ∧ Numeral digits v.toNat

/-- What the reader drops between mark and numeral. -/
def signs : List (List Char) :=
  [[], ['+']]

/-!
### Digits
-/

theorem IsDigit.lt {c : Char} {d : Nat} (h : IsDigit c d) : d < 16 := by
  rcases h with h | h
  · exact (List.getElem?_eq_some_iff.1 h).1
  · exact (List.getElem?_eq_some_iff.1 h).1

theorem toNat_lt_of_digitValue {c : Char} {d : Nat} (h : digitValue c = some d) : c.toNat < 128 := by
  unfold digitValue at h
  split_ifs at h with hdecimal hlower hupper
  · exact Nat.lt_of_le_of_lt (Char.le_def.1 hdecimal.2) (by decide)
  · exact Nat.lt_of_le_of_lt (Char.le_def.1 hlower.2) (by decide)
  · exact Nat.lt_of_le_of_lt (Char.le_def.1 hupper.2) (by decide)

/-- The three ranges of characters that the reader takes for digits are the two rows of sixteen. -/
theorem digitValue_eq_some_iff {c : Char} {d : Nat} : digitValue c = some d ↔ IsDigit c d := by
  constructor
  · intro h
    have hascii : ∀ n < 128, ∀ d ∈ digitValue (Char.ofNat n), IsDigit (Char.ofNat n) d := by
      decide +kernel
    have hc := hascii c.toNat (toNat_lt_of_digitValue h) d
    rw [Char.ofNat_toNat] at hc
    exact hc h
  · intro h
    have hlt := h.lt
    rcases h with h | h
    · interval_cases d <;> cases h <;> rfl
    · interval_cases d <;> cases h <;> rfl

/-- Reading on behind a value moves the value up by as many places as there are digits. -/
theorem foldlM_digitValue_eq_some_iff {digits : List Char} {value n : Nat} :
    digits.foldlM (fun value c => (digitValue c).map (16 * value + ·)) value = some n ↔
      ∃ ds, List.Forall₂ IsDigit digits ds ∧
        Nat.ofDigits 16 ds.reverse + 16 ^ ds.length * value = n := by
  have hcons : ∀ (d : Nat) (ds : List Nat),
      Nat.ofDigits 16 (d :: ds).reverse = Nat.ofDigits 16 ds.reverse + 16 ^ ds.length * d := by
    intro d ds
    rw [List.reverse_cons, Nat.ofDigits_append, Nat.ofDigits_singleton, List.length_reverse]
  induction digits generalizing value with
  | nil => simp [List.forall₂_nil_left_iff]
  | cons c rest ih =>
      rw [List.foldlM_cons, Option.bind_eq_bind, Option.bind_eq_some_iff]
      simp only [Option.map_eq_some_iff, digitValue_eq_some_iff, ih]
      constructor
      · intro h
        rcases h with ⟨_, ⟨d, hd, rfl⟩, ds, hds, rfl⟩
        refine ⟨d :: ds, .cons hd hds, ?_⟩
        rw [hcons, List.length_cons]
        ring
      · intro h
        rcases h with ⟨_, hds, rfl⟩
        cases hds with
        | @cons _ d _ ds hd hds =>
            refine ⟨16 * value + d, ⟨d, hd, rfl⟩, ds, hds, ?_⟩
            rw [hcons, List.length_cons]
            ring

theorem positional_eq_some_iff {digits : List Char} {n : Nat} :
    positional digits = some n ↔
      ∃ ds, List.Forall₂ IsDigit digits ds ∧ Nat.ofDigits 16 ds.reverse = n := by
  rw [positional, foldlM_digitValue_eq_some_iff]
  simp only [Nat.mul_zero, Nat.add_zero]

/-- A character that is no digit is in no numeral. -/
theorem Numeral.notMem {digits : List Char} {n : Nat} (h : Numeral digits n) {c : Char}
    (hc : digitValue c = none) : c ∉ digits := by
  intro hmem
  rcases h.places with ⟨ds, hds, -⟩
  rcases forall₂_mem_left hds hmem with ⟨d, -, hd⟩
  cases hc.symm.trans (digitValue_eq_some_iff.2 hd)

/-- The digits that a number is printed with spell it. -/
theorem numeral_toDigits (n : Nat) : Numeral (Nat.toDigits 16 n) n := by
  have hdigit : ∀ d < 16, IsDigit d.digitChar d := by decide
  refine ⟨Nat.toDigits_ne_nil, ?_⟩
  induction n using Nat.strongRecOn with
  | ind n ih =>
      rw [Nat.toDigits_eq_if (by decide)]
      split
      · next hlt => exact ⟨[n], .cons (hdigit n hlt) .nil, by simp⟩
      · next hle =>
          rcases ih (n / 16) (by omega) with ⟨ds, hds, hvalue⟩
          refine ⟨ds ++ [n % 16], ?_, ?_⟩
          · exact List.rel_append hds (.cons (hdigit _ (Nat.mod_lt n (by decide))) .nil)
          · rw [List.reverse_append, List.reverse_singleton, List.singleton_append, Nat.ofDigits_cons,
              hvalue]
            omega

/-!
### Marks and signs
-/

theorem exists_mark (token : List Char) : ∃ mark ∈ marks, token = mark ++ dropMark token := by
  unfold dropMark
  split
  · exact ⟨['0', 'x'], by simp [marks], rfl⟩
  · exact ⟨['0', 'X'], by simp [marks], rfl⟩
  · exact ⟨[], by simp [marks], rfl⟩

theorem exists_sign (token : List Char) : ∃ sign ∈ signs, token = sign ++ dropPlus token := by
  unfold dropPlus
  split
  · exact ⟨['+'], by simp [signs], rfl⟩
  · exact ⟨[], by simp [signs], rfl⟩

/-- A mark is dropped, and nothing more where no second one follows. -/
theorem dropMark_append {mark rest : List Char} (hmark : mark ∈ marks) (hlower : 'x' ∉ rest)
    (hupper : 'X' ∉ rest) : dropMark (mark ++ rest) = rest := by
  simp only [marks, List.mem_cons, List.not_mem_nil, or_false] at hmark
  rcases hmark with rfl | rfl | rfl
  · rw [List.nil_append]
    unfold dropMark
    split
    · simp at hlower
    · simp at hupper
    · rfl
  · rfl
  · rfl

theorem dropPlus_append {sign rest : List Char} (hsign : sign ∈ signs) (hplus : '+' ∉ rest) :
    dropPlus (sign ++ rest) = rest := by
  simp only [signs, List.mem_cons, List.not_mem_nil, or_false] at hsign
  rcases hsign with rfl | rfl
  · rw [List.nil_append]
    unfold dropPlus
    split
    · simp at hplus
    · rfl
  · rfl

/-!
### The reader
-/

/-- A token is a word when what is left of it is a numeral. -/
theorem parse_eq_some_iff_numeral {token : List Char} {v : Word} :
    parse token = some v ↔ Numeral (dropPlus (dropMark token)) v.toNat := by
  unfold parse
  cases dropPlus (dropMark token) with
  | nil =>
      simp only [reduceCtorEq, false_iff]
      intro h
      exact h.nonempty rfl
  | cons c rest =>
      simp only
      have hnumeral : Numeral (c :: rest) v.toNat ↔ positional (c :: rest) = some v.toNat := by
        rw [positional_eq_some_iff]
        exact ⟨Numeral.places, fun h => ⟨List.cons_ne_nil c rest, h⟩⟩
      rw [hnumeral]
      cases positional (c :: rest) with
      | none => simp
      | some value =>
          simp only [Option.some.injEq]
          by_cases hvalue : value < UInt64.size
          · rw [if_pos hvalue, Option.some.injEq]
            constructor
            · intro h
              rw [← h, UInt64.toNat_ofNat_of_lt' hvalue]
            · intro h
              rw [h, UInt64.ofNat_toNat]
          · rw [if_neg hvalue]
            simp only [reduceCtorEq, false_iff]
            intro h
            exact hvalue (h ▸ v.toNat_lt)

/-- A token is a word when it is made of a mark, a sign and a numeral. -/
theorem parse_eq_some_iff {token : List Char} {v : Word} :
    parse token = some v ↔ ∃ mark ∈ marks, ∃ sign ∈ signs, ∃ digits,
      token = mark ++ (sign ++ digits) ∧ Numeral digits v.toNat := by
  rw [parse_eq_some_iff_numeral]
  constructor
  · intro h
    rcases exists_mark token with ⟨mark, hmark, htoken⟩
    rcases exists_sign (dropMark token) with ⟨sign, hsign, hrest⟩
    refine ⟨mark, hmark, sign, hsign, _, ?_, h⟩
    rw [← hrest]
    exact htoken
  · intro h
    rcases h with ⟨mark, hmark, sign, hsign, digits, rfl, hdigits⟩
    -- neither sign nor numeral has the letter of a mark
    have hletter : ∀ {c : Char}, c ≠ '+' → digitValue c = none → c ∉ sign ++ digits := by
      intro c hplus hc hmem
      rcases List.mem_append.1 hmem with hmem | hmem
      · simp only [signs, List.mem_cons, List.not_mem_nil, or_false] at hsign
        rcases hsign with rfl | rfl
        · cases hmem
        · exact hplus (List.mem_singleton.1 hmem)
      · exact hdigits.notMem hc hmem
    rw [dropMark_append hmark (hletter (by decide) rfl) (hletter (by decide) rfl),
      dropPlus_append hsign (hdigits.notMem rfl)]
    exact hdigits

/-- Every spelling of a word is read as the word. -/
theorem parse_of_spells {token : List Char} {v : Word} (h : Spells token v) : parse token = some v := by
  rcases h with ⟨mark, hmark, digits, rfl, hdigits⟩
  exact parse_eq_some_iff.2 ⟨mark, hmark, [], by simp [signs], digits, rfl, hdigits⟩

/-- A word is printed in one of its spellings, and so is the word behind a mark. -/
theorem spells_hex (v : Word) (mark : List Char) (hmark : mark ∈ marks) :
    Spells (mark ++ v.hex.toList) v := by
  refine ⟨mark, hmark, v.hex.toList, rfl, ?_⟩
  rw [Word.hex, String.toList_ofList]
  exact numeral_toDigits v.toNat

/-- The tokens that are words. Besides the spellings of words there are those with a plus sign in front of
    the numeral, so for a token without a plus sign to be a word and to spell one is the same. -/
theorem parse_accepts_spellings (token : List Char) (v : Word) :
    (parse token = some v ↔ Spells token v ∨
      ∃ mark ∈ marks, ∃ digits, token = mark ++ '+' :: digits ∧ Numeral digits v.toNat) ∧
    ('+' ∉ token → (parse token = some v ↔ Spells token v)) := by
  have hparse : parse token = some v ↔ Spells token v ∨
      ∃ mark ∈ marks, ∃ digits, token = mark ++ '+' :: digits ∧ Numeral digits v.toNat := by
    constructor
    · intro h
      rcases parse_eq_some_iff.1 h with ⟨mark, hmark, sign, hsign, digits, htoken, hdigits⟩
      simp only [signs, List.mem_cons, List.not_mem_nil, or_false] at hsign
      rcases hsign with rfl | rfl
      · exact .inl ⟨mark, hmark, digits, htoken, hdigits⟩
      · exact .inr ⟨mark, hmark, digits, htoken, hdigits⟩
    · intro h
      rcases h with h | ⟨mark, hmark, digits, htoken, hdigits⟩
      · exact parse_of_spells h
      · exact parse_eq_some_iff.2 ⟨mark, hmark, ['+'], by simp [signs], digits, htoken, hdigits⟩
  refine ⟨hparse, ?_⟩
  intro hplus
  rw [hparse, or_iff_left]
  intro h
  rcases h with ⟨mark, -, digits, rfl, -⟩
  exact hplus (by simp)

/-- A plus sign is read, at a prompt and in an image, although the token spells no word. -/
theorem plus_five_is_read :
    (¬ ∃ v, Spells ['+', '5'] v) ∧ parse ['+', '5'] = some 5 ∧
      RomImage.read [0x2B, 0x35] = .ok ⟨[5], false⟩ := by
  refine ⟨?_, by decide, by decide +kernel⟩
  intro h
  rcases h with ⟨v, mark, hmark, digits, htoken, hdigits⟩
  have hplus : '+' ∉ mark ++ digits := by
    rw [List.mem_append, not_or]
    refine ⟨?_, hdigits.notMem rfl⟩
    intro hmem
    have hnone : ∀ mark ∈ marks, '+' ∉ mark := by decide
    exact hnone mark hmark hmem
  exact hplus (htoken ▸ List.mem_cons_self)

end Netlist.Text.Hex
