/-
Module: Netlist.Proofs.Listing
Layer: Proofs
Purpose: What a listing of memory cells says. Flat and listed blocks keep the cells that are not zero, each
  address once, and a listing sorts them by address; so two blocks have the same listing exactly when they
  read the same word at every address.
Imports: Netlist.Proofs.Ram
Main exports: SortedMap.get?_eq_some_iff, Cells.mem_occupied_iff, Cells.occupied_addresses_nodup,
  Cells.mem_nonZero_iff, Cells.nonZero_ascending, RamStore.Fits.nonZero_eq_iff
-/
import Netlist.Proofs.Ram

namespace Netlist

/-- A value is stored under a key exactly when they are an entry. -/
theorem SortedMap.get?_eq_some_iff {κ ν : Type} [Ord κ] [Std.LawfulEqOrd κ] [Std.OrientedOrd κ]
    {m : SortedMap κ ν} {key : κ} {value : ν} : m.get? key = some value ↔ (key, value) ∈ m.entries := by
  rw [get?, Option.map_eq_some_iff]
  constructor
  · rintro ⟨e, hfind, rfl⟩
    have hkey : key = e.1 := by simpa using List.find?_some hfind
    rw [hkey]
    exact List.mem_of_find?_eq_some hfind
  · intro hmem
    refine ⟨(key, value), ?_, rfl⟩
    obtain ⟨before, after, hsplit⟩ := List.append_of_mem hmem
    rw [List.find?_eq_some_iff_append]
    refine ⟨by simp, before, after, hsplit, ?_⟩
    intro e he
    -- an entry before this one has a smaller key
    have hascending := m.ascending
    rw [hsplit] at hascending
    have hlt := (List.pairwise_append.1 hascending).2.2 e he (key, value) List.mem_cons_self
    have hne : key ≠ e.1 := by
      rintro rfl
      simp at hlt
    simpa using hne

namespace Cells

variable {addrWidth wordWidth : Nat} {cells other : Cells} {address word : Word}

/-- The addresses of a flat block are words. -/
theorem Fits.toNat_ofNat {words : Array Word} (h : (dense words).Fits addrWidth wordWidth) {i : Nat}
    (hi : i < words.size) : (UInt64.ofNat i).toNat = i := by
  refine Word.toNat_ofNat_of_lt (Nat.lt_of_lt_of_le (h.2.1 ▸ hi) ?_)
  exact Nat.pow_le_pow_right (by decide) (Nat.le_trans h.1 (by decide))

/-- The cells that are kept, apart from zeros, are those that do not read as zero. -/
theorem mem_occupied_iff (h : cells.Fits addrWidth wordWidth) :
    (address, word) ∈ cells.occupied ↔ word ≠ 0 ∧ cells.read address = word := by
  cases cells with
  | dense words =>
      rw [occupied, List.mem_filterMap, Cells.read, Array.getD_eq_getD_getElem?]
      constructor
      · rintro ⟨⟨found, i⟩, hmem, hsome⟩
        rw [List.mem_zipIdx_iff_getElem?, Array.getElem?_toList] at hmem
        split at hsome
        · cases hsome
        · next hne =>
            cases hsome
            rw [h.toNat_ofNat (Array.getElem?_eq_some_iff.1 hmem).1, hmem]
            exact ⟨hne, rfl⟩
      · rintro ⟨hne, hread⟩
        cases hget : words[address.toNat]? with
        | none =>
            rw [hget] at hread
            exact absurd hread.symm hne
        | some found =>
            rw [hget, Option.getD_some] at hread
            subst hread
            refine ⟨(found, address.toNat), ?_, ?_⟩
            · rw [List.mem_zipIdx_iff_getElem?, Array.getElem?_toList]
              exact hget
            · rw [if_neg hne, UInt64.ofNat_toNat]
  | sparse words =>
      rw [occupied, Cells.read, ← SortedMap.get?_eq_some_iff]
      constructor
      · intro hget
        have hpos := (h _ (SortedMap.get?_eq_some_iff.1 hget)).2.1
        rw [hget]
        refine ⟨?_, rfl⟩
        rintro rfl
        exact Nat.lt_irrefl 0 hpos
      · rintro ⟨hne, hread⟩
        cases hget : words.get? address with
        | none =>
            rw [hget] at hread
            exact absurd hread.symm hne
        | some found =>
            rw [hget] at hread
            exact congrArg some hread

/-- No address is kept twice. -/
theorem occupied_addresses_nodup (h : cells.Fits addrWidth wordWidth) :
    (cells.occupied.map Prod.fst).Nodup := by
  rw [List.Nodup, List.pairwise_map]
  cases cells with
  | dense words =>
      have hindex : words.toList.zipIdx.Pairwise (fun a b => a.2 ≠ b.2) := by
        rw [← List.pairwise_map (f := Prod.snd) (R := (· ≠ ·)), List.zipIdx_map_snd]
        exact List.nodup_range'
      rw [occupied, List.pairwise_filterMap]
      refine hindex.imp_of_mem ?_
      rintro ⟨found, i⟩ ⟨found', j⟩ hi hj hne e he e' he'
      rw [List.mem_zipIdx_iff_getElem?, Array.getElem?_toList] at hi hj
      split at he
      · cases he
      · split at he'
        · cases he'
        · cases he
          cases he'
          rw [Ne, ← UInt64.toNat_inj, h.toNat_ofNat (Array.getElem?_eq_some_iff.1 hi).1,
            h.toNat_ofNat (Array.getElem?_eq_some_iff.1 hj).1]
          exact hne
  | sparse words =>
      refine words.ascending.imp ?_
      intro a b hlt heq
      rw [heq] at hlt
      simp at hlt

/-- The listing has the cells that are not zero. -/
theorem mem_nonZero_iff (h : cells.Fits addrWidth wordWidth) :
    (address, word) ∈ cells.nonZero ↔ word ≠ 0 ∧ cells.read address = word := by
  rw [cells.nonZero_perm.mem_iff, mem_occupied_iff h]

/-- The listing is in the order of addresses: it is sorted, and no address comes up twice. -/
theorem nonZero_ascending (h : cells.Fits addrWidth wordWidth) :
    cells.nonZero.Pairwise (fun a b => a.1 < b.1) := by
  have hsorted : cells.nonZero.Pairwise (fun a b => decide (a.1 ≤ b.1) = true) := by
    apply List.pairwise_mergeSort
    · intro a b c hab hbc
      exact decide_eq_true (UInt64.le_trans (of_decide_eq_true hab) (of_decide_eq_true hbc))
    · intro a b
      simpa using UInt64.le_total a.1 b.1
  have hdistinct : cells.nonZero.Pairwise (fun a b => a.1 ≠ b.1) := by
    rw [← List.pairwise_map (f := Prod.fst) (R := (· ≠ ·))]
    exact (cells.nonZero_perm.map Prod.fst).nodup_iff.2 (occupied_addresses_nodup h)
  refine hsorted.imp₂ ?_ hdistinct
  intro a b hle hne
  exact UInt64.lt_of_le_of_ne (of_decide_eq_true hle) hne

/-- Blocks have the same listing exactly when they read the same words. -/
theorem nonZero_eq_iff {addrWidth' wordWidth' : Nat} (h : cells.Fits addrWidth wordWidth)
    (h' : other.Fits addrWidth' wordWidth') :
    cells.nonZero = other.nonZero ↔ ∀ address, cells.read address = other.read address := by
  constructor
  · intro heq address
    have hiff : ∀ word, word ≠ 0 ∧ cells.read address = word ↔
        word ≠ 0 ∧ other.read address = word := by
      intro word
      rw [← mem_nonZero_iff h, ← mem_nonZero_iff h', heq]
    by_cases hzero : cells.read address = 0
    · by_contra hne
      rw [hzero] at hne
      have hword := ((hiff (other.read address)).2 ⟨Ne.symm hne, rfl⟩).2
      exact hne (hzero.symm.trans hword)
    · exact ((hiff _).1 ⟨hzero, rfl⟩).2.symm
  · intro hread
    have hmem : ∀ e, e ∈ cells.nonZero ↔ e ∈ other.nonZero := by
      rintro ⟨address, word⟩
      rw [mem_nonZero_iff h, mem_nonZero_iff h', hread]
    have hnodup : ∀ {entries : List (Word × Word)}, entries.Pairwise (fun a b => a.1 < b.1) →
        entries.Nodup := by
      intro entries hascending
      refine hascending.imp ?_
      rintro a b hlt rfl
      exact UInt64.lt_irrefl a.1 hlt
    have hasc := nonZero_ascending h
    have hasc' := nonZero_ascending h'
    have hperm := (List.perm_ext_iff_of_nodup (hnodup hasc) (hnodup hasc')).2 hmem
    exact hperm.eq_of_pairwise (fun a b _ _ hab hba => absurd hba (UInt64.lt_asymm hab)) hasc hasc'

end Cells

/-- The listings of two blocks are the same exactly when the blocks read the same words. -/
theorem RamStore.Fits.nonZero_eq_iff {rams rams' : List RamBlock} {store store' : RamStore}
    (h : store.Fits rams) (h' : store'.Fits rams') {b b' : Nat} {block block' : RamBlock}
    (hblock : rams[b]? = some block) (hblock' : rams'[b']? = some block') :
    store.nonZero b = store'.nonZero b' ↔ ∀ address, store.read b address = store'.read b' address := by
  obtain ⟨cells, hcells, hfits⟩ := h.exists_cells hblock
  obtain ⟨cells', hcells', hfits'⟩ := h'.exists_cells hblock'
  simp only [RamStore.nonZero, RamStore.read, hcells, hcells']
  exact Cells.nonZero_eq_iff hfits hfits'

end Netlist
