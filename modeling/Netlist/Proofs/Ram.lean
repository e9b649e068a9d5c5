/-
Module: Netlist.Proofs.Ram
Layer: Proofs
Purpose: Memory contents that fit their blocks. A flat block has a cell for every address and a listed one
  only cells that are not zero, and in both every address and word is as wide as the block says. Writes
  that are in range keep this. A block keeps room for its addresses whatever is written to it, and with
  room each cell holds, after a sequence of writes in range to different blocks, the word written to it or
  else what it held before.
Imports: Mathlib.Data.List.Nodup, Mathlib.Data.List.Sigma, Netlist.Proofs.Word, Netlist.Ram,
  Netlist.Simulation.State
Main exports: Cells.Fits, Cells.HasRoom, Cells.read_write, Cells.Fits.nonZero, RamStore.Fits,
  RamStore.HasRoom, RamWrite.Allowed, RamStore.Fits.foldl_write, State.allowed_of_mem_updates,
  State.read_foldl_writes
-/
import Mathlib.Data.List.Nodup
import Mathlib.Data.List.Sigma
import Netlist.Proofs.Word
import Netlist.Ram
import Netlist.Simulation.State

namespace Netlist

/-!
### One block
-/

namespace Cells

variable {addrWidth wordWidth : Nat} {cells : Cells} {address value : Word}

/-- Cells fit a block with the given widths of addresses and words. -/
def Fits (addrWidth wordWidth : Nat) : Cells → Prop
  | .dense words => addrWidth ≤ denseLimit ∧ words.size = 2 ^ addrWidth ∧
      ∀ word ∈ words.toList, word.toNat < 2 ^ wordWidth
  | .sparse words => ∀ e ∈ words.entries, e.1.toNat < 2 ^ addrWidth ∧ 0 < e.2.toNat ∧
      e.2.toNat < 2 ^ wordWidth

/-- Every address of the given width has a cell of its own, whatever the cells hold. -/
def HasRoom (addrWidth : Nat) : Cells → Prop
  | .dense words => words.size = 2 ^ addrWidth
  | .sparse _ => True

theorem Fits.hasRoom (h : cells.Fits addrWidth wordWidth) : cells.HasRoom addrWidth := by
  cases cells with
  | dense words => exact h.2.1
  | sparse words => trivial

/-- No write takes room away, also where its address or its word is too wide. -/
theorem HasRoom.write (h : cells.HasRoom addrWidth) (address value : Word) :
    (cells.write address value).HasRoom addrWidth := by
  cases cells with
  | dense words => exact Array.size_setIfInBounds.trans h
  | sparse words => trivial

theorem addressSpace_of_le (h : addrWidth ≤ denseLimit) :
    Word.addressSpace addrWidth = 2 ^ addrWidth := by
  rw [Word.addressSpace, if_neg]
  · rfl
  · have : denseLimit < Word.maxWidth := by decide
    omega

theorem fits_blank (addrWidth wordWidth : Nat) : (blank addrWidth).Fits addrWidth wordWidth := by
  rw [blank]
  split
  · next hle =>
      refine ⟨hle, by rw [Array.size_replicate, addressSpace_of_le hle], ?_⟩
      intro word hword
      rw [Array.toList_replicate] at hword
      rw [List.eq_of_mem_replicate hword]
      exact Nat.two_pow_pos wordWidth
  · intro e he
    cases he

theorem read_blank (addrWidth : Nat) (address : Word) : (blank addrWidth).read address = 0 := by
  unfold blank
  split
  · rw [Cells.read, Array.getD_eq_getD_getElem?, Array.getElem?_replicate]
    split <;> rfl
  · rfl

theorem read_clear (cells : Cells) (address : Word) : cells.clear.read address = 0 := by
  cases cells with
  | dense words =>
      rw [Cells.clear, Cells.read, Array.getD_eq_getD_getElem?, Array.getElem?_replicate]
      split <;> rfl
  | sparse words => rfl

/-- Clearing keeps the shape of the cells. -/
theorem Fits.clear (h : cells.Fits addrWidth wordWidth) : cells.clear.Fits addrWidth wordWidth := by
  cases cells with
  | dense words =>
      refine ⟨h.1, by rw [Array.size_replicate, h.2.1], ?_⟩
      intro word hword
      rw [Array.toList_replicate] at hword
      rw [List.eq_of_mem_replicate hword]
      exact Nat.two_pow_pos wordWidth
  | sparse words =>
      intro e he
      cases he

/-- A write in range keeps the cells in shape. -/
theorem Fits.write (h : cells.Fits addrWidth wordWidth) (haddress : address.toNat < 2 ^ addrWidth)
    (hvalue : value.toNat < 2 ^ wordWidth) :
    (cells.write address value).Fits addrWidth wordWidth := by
  cases cells with
  | dense words =>
      refine ⟨h.1, by rw [Array.size_setIfInBounds, h.2.1], ?_⟩
      intro word hword
      rw [Array.toList_setIfInBounds] at hword
      rcases List.mem_or_eq_of_mem_set hword with hword | rfl
      · exact h.2.2 word hword
      · exact hvalue
  | sparse words =>
      by_cases hzero : value = 0
      · have hcells : (Cells.sparse words).write address value = .sparse (words.erase address) := by
          simp [Cells.write, hzero]
        rw [hcells]
        exact fun e he => h e (List.mem_of_mem_filter he)
      · have hcells : (Cells.sparse words).write address value =
            .sparse (words.insert address value) := by
          simp [Cells.write, hzero]
        rw [hcells]
        intro e he
        rcases SortedMap.mem_insertEntry he with rfl | he
        · have hpos : value.toNat ≠ 0 := fun h0 => hzero (UInt64.toNat_inj.1 h0)
          exact ⟨haddress, Nat.pos_of_ne_zero hpos, hvalue⟩
        · exact h e he

theorem Fits.read_lt (h : cells.Fits addrWidth wordWidth) (address : Word) :
    (cells.read address).toNat < 2 ^ wordWidth := by
  cases cells with
  | dense words =>
      rw [Cells.read, Array.getD_eq_getD_getElem?]
      cases hget : words[address.toNat]? with
      | none => exact Nat.two_pow_pos wordWidth
      | some word => exact h.2.2 word (Array.mem_toList_iff.2 (Array.mem_of_getElem? hget))
  | sparse words =>
      rw [Cells.read, SortedMap.get?]
      cases hfind : words.entries.find? (fun e => compare address e.1 == .eq) with
      | none => exact Nat.two_pow_pos wordWidth
      | some e => exact (h e (List.mem_of_find?_eq_some hfind)).2.2

/-- A write in range changes the word at its address and no other. -/
theorem read_write (h : cells.HasRoom addrWidth) (haddress : address.toNat < 2 ^ addrWidth)
    (other : Word) :
    (cells.write address value).read other = if other = address then value else cells.read other := by
  cases cells with
  | dense words =>
      have hlt : address.toNat < words.size := lt_of_lt_of_eq haddress h.symm
      simp only [Cells.write, Cells.read, Array.getD_eq_getD_getElem?]
      by_cases heq : other = address
      · subst heq
        simp [hlt]
      · have hne : address.toNat ≠ other.toNat := fun e => heq (UInt64.toNat_inj.1 e.symm)
        simp [heq, hne]
  | sparse words =>
      simp only [Cells.write, Cells.read]
      split
      · next hzero =>
          rw [SortedMap.get?_erase]
          by_cases heq : other = address <;> simp [heq, hzero]
      · rw [SortedMap.get?_insert]
        by_cases heq : other = address <;> simp [heq]

/-- The listing has the cells that are kept. -/
theorem nonZero_perm (cells : Cells) : cells.nonZero.Perm cells.occupied :=
  List.mergeSort_perm _ _

/-- The listed cells are in range and not zero. -/
theorem Fits.nonZero (h : cells.Fits addrWidth wordWidth) {e : Word × Word}
    (he : e ∈ cells.nonZero) :
    e.1.toNat < 2 ^ addrWidth ∧ 0 < e.2.toNat ∧ e.2.toNat < 2 ^ wordWidth := by
  have he := cells.nonZero_perm.mem_iff.1 he
  cases cells with
  | dense words =>
      obtain ⟨⟨word, i⟩, hmem, hsome⟩ := List.mem_filterMap.1 he
      rw [List.mem_zipIdx_iff_getElem?, Array.getElem?_toList] at hmem
      split at hsome
      · cases hsome
      · next hne =>
          cases hsome
          have hlt : i < 2 ^ addrWidth := by
            rw [← h.2.1]
            exact (Array.getElem?_eq_some_iff.1 hmem).1
          -- a flat block is small, so its addresses are words
          have hword : i < 2 ^ Word.maxWidth :=
            Nat.lt_of_lt_of_le hlt (Nat.pow_le_pow_right (by decide)
              (Nat.le_trans h.1 (by decide)))
          refine ⟨by rw [Word.toNat_ofNat_of_lt hword]; exact hlt, ?_,
            h.2.2 word (Array.mem_toList_iff.2 (Array.mem_of_getElem? hmem))⟩
          exact Nat.pos_of_ne_zero (fun h0 => hne (UInt64.toNat_inj.1 h0))
  | sparse words => exact h e he

end Cells

/-!
### All blocks
-/

/-- A write goes to a block, to one of its addresses and with a word that fits. -/
def RamWrite.Allowed (rams : List RamBlock) (w : RamWrite) : Prop :=
  ∃ block, rams[w.block]? = some block ∧ w.address.toNat < 2 ^ block.addrWidth ∧
    w.data.toNat < 2 ^ block.wordWidth

namespace RamStore

variable {rams : List RamBlock} {store : RamStore}

/-- The contents of a list of blocks. -/
structure Fits (rams : List RamBlock) (store : RamStore) : Prop where
  size_eq : store.blocks.size = rams.length
  cells_fit : ∀ (b : Nat) (block : RamBlock) (cells : Cells), rams[b]? = some block →
    store.blocks[b]? = some cells → cells.Fits block.addrWidth block.wordWidth

/-- The contents of a list of blocks, whatever their cells hold. -/
structure HasRoom (rams : List RamBlock) (store : RamStore) : Prop where
  size_eq : store.blocks.size = rams.length
  cells_room : ∀ (b : Nat) (block : RamBlock) (cells : Cells), rams[b]? = some block →
    store.blocks[b]? = some cells → cells.HasRoom block.addrWidth

theorem Fits.hasRoom (h : store.Fits rams) : store.HasRoom rams where
  size_eq := h.size_eq
  cells_room := fun b block cells hblock hcells => (h.cells_fit b block cells hblock hcells).hasRoom

theorem HasRoom.write (h : store.HasRoom rams) (target : Nat) (address value : Word) :
    (store.write target address value).HasRoom rams := by
  refine ⟨by simp [RamStore.write, h.size_eq], ?_⟩
  intro b block cells hblock hcells
  rw [RamStore.write, Array.getElem?_modify] at hcells
  split at hcells
  · rcases Option.map_eq_some_iff.1 hcells with ⟨before, hbefore, rfl⟩
    exact (h.cells_room b block before hblock hbefore).write address value
  · exact h.cells_room b block cells hblock hcells

theorem HasRoom.foldl_write (h : store.HasRoom rams) (writes : List RamWrite) :
    (writes.foldl (fun ram w => ram.write w.block w.address w.data) store).HasRoom rams := by
  induction writes generalizing store with
  | nil => exact h
  | cons w rest ih => exact ih (h.write w.block w.address w.data)

theorem fits_ofCircuit (c : Circuit) : (ofCircuit c).Fits c.rams := by
  refine ⟨by simp [ofCircuit], ?_⟩
  intro b block cells hblock hcells
  simp only [ofCircuit, List.getElem?_toArray, List.getElem?_map, hblock, Option.map_some,
    Option.some.injEq] at hcells
  rw [← hcells]
  exact Cells.fits_blank _ _

theorem Fits.clear (h : store.Fits rams) : store.clear.Fits rams := by
  refine ⟨by simp [RamStore.clear, h.size_eq], ?_⟩
  intro b block cells hblock hcells
  simp only [RamStore.clear, Array.getElem?_map, Option.map_eq_some_iff] at hcells
  obtain ⟨cells', hcells', rfl⟩ := hcells
  exact (h.cells_fit b block cells' hblock hcells').clear

/-- The cells of a block of a store that fits. -/
theorem Fits.exists_cells (h : store.Fits rams) {b : Nat} {block : RamBlock}
    (hblock : rams[b]? = some block) :
    ∃ cells, store.blocks[b]? = some cells ∧ cells.Fits block.addrWidth block.wordWidth := by
  have hlt : b < store.blocks.size := by
    rw [h.size_eq]
    exact (List.getElem?_eq_some_iff.1 hblock).1
  have hget := Array.getElem?_eq_getElem hlt
  exact ⟨_, hget, h.cells_fit b block _ hblock hget⟩

theorem Fits.read_lt (h : store.Fits rams) {b : Nat} {block : RamBlock}
    (hblock : rams[b]? = some block) (address : Word) :
    (store.read b address).toNat < 2 ^ block.wordWidth := by
  obtain ⟨cells, hcells, hfits⟩ := h.exists_cells hblock
  rw [RamStore.read, hcells]
  exact hfits.read_lt address

/-- The cells that are listed for a block are in range and not zero. -/
theorem Fits.nonZero (h : store.Fits rams) {b : Nat} {block : RamBlock}
    (hblock : rams[b]? = some block) {e : Word × Word} (he : e ∈ store.nonZero b) :
    e.1.toNat < 2 ^ block.addrWidth ∧ 0 < e.2.toNat ∧ e.2.toNat < 2 ^ block.wordWidth := by
  obtain ⟨cells, hcells, hfits⟩ := h.exists_cells hblock
  rw [RamStore.nonZero, hcells] at he
  exact hfits.nonZero he

/-- An allowed write keeps the store in shape. -/
theorem Fits.write (h : store.Fits rams) {w : RamWrite} (hw : w.Allowed rams) :
    (store.write w.block w.address w.data).Fits rams := by
  obtain ⟨target, htarget, haddress, hdata⟩ := hw
  refine ⟨by simp [RamStore.write, h.size_eq], ?_⟩
  intro b block cells hblock hcells
  rw [RamStore.write, Array.getElem?_modify] at hcells
  split at hcells
  · next heq =>
      subst heq
      rw [htarget] at hblock
      cases hblock
      obtain ⟨cells', hcells', rfl⟩ := Option.map_eq_some_iff.1 hcells
      exact (h.cells_fit _ _ cells' htarget hcells').write haddress hdata
  · exact h.cells_fit b block cells hblock hcells

/-- An allowed write changes one cell of one block. -/
theorem HasRoom.read_write (h : store.HasRoom rams) {w : RamWrite} (hw : w.Allowed rams) (b : Nat)
    (address : Word) :
    (store.write w.block w.address w.data).read b address =
      if b = w.block ∧ address = w.address then w.data else store.read b address := by
  obtain ⟨target, htarget, haddress, -⟩ := hw
  rw [RamStore.read, RamStore.read, RamStore.write, Array.getElem?_modify]
  by_cases heq : w.block = b
  · subst heq
    have hlt : w.block < store.blocks.size := by
      rw [h.size_eq]
      exact (List.getElem?_eq_some_iff.1 htarget).1
    have hcells := Array.getElem?_eq_getElem hlt
    rw [if_pos rfl, hcells]
    simp only [Option.map_some, true_and]
    exact Cells.read_write (h.cells_room _ _ _ htarget hcells) haddress address
  · have hne : ¬ (b = w.block ∧ address = w.address) := fun hand => heq hand.1.symm
    rw [if_neg heq, if_neg hne]

theorem Fits.foldl_write {writes : List RamWrite} (h : store.Fits rams)
    (hwrites : ∀ w ∈ writes, w.Allowed rams) :
    (writes.foldl (fun ram w => ram.write w.block w.address w.data) store).Fits rams := by
  induction writes generalizing store with
  | nil => exact h
  | cons w rest ih =>
      exact ih (h.write (hwrites w List.mem_cons_self))
        (fun w' hw' => hwrites w' (List.mem_cons_of_mem w hw'))

/-- A cell that no write goes to holds what it held. -/
theorem HasRoom.read_foldl_of_not_mem {writes : List RamWrite} (h : store.HasRoom rams)
    (hwrites : ∀ w ∈ writes, w.Allowed rams) {b : Nat} {address : Word}
    (hnot : ∀ w ∈ writes, ¬ (b = w.block ∧ address = w.address)) :
    (writes.foldl (fun ram w => ram.write w.block w.address w.data) store).read b address =
      store.read b address := by
  induction writes generalizing store with
  | nil => rfl
  | cons w rest ih =>
      have hw := hwrites w List.mem_cons_self
      rw [List.foldl_cons, ih (h.write _ _ _) (fun w' hw' => hwrites w' (List.mem_cons_of_mem w hw'))
        (fun w' hw' => hnot w' (List.mem_cons_of_mem w hw')), h.read_write hw,
        if_neg (hnot w List.mem_cons_self)]

/-- When no block is written twice, a cell that a write goes to holds the word of the write. -/
theorem HasRoom.read_foldl_of_mem {writes : List RamWrite} (h : store.HasRoom rams)
    (hwrites : ∀ w ∈ writes, w.Allowed rams) (hnodup : (writes.map RamWrite.block).Nodup)
    {w : RamWrite} (hmem : w ∈ writes) :
    (writes.foldl (fun ram w => ram.write w.block w.address w.data) store).read w.block w.address =
      w.data := by
  induction writes generalizing store with
  | nil => cases hmem
  | cons w' rest ih =>
      have hw' := hwrites w' List.mem_cons_self
      have hrest := fun v hv => hwrites v (List.mem_cons_of_mem w' hv)
      rw [List.map_cons, List.nodup_cons] at hnodup
      rw [List.foldl_cons]
      rcases List.mem_cons.1 hmem with rfl | hmem
      · -- later writes go to other blocks
        rw [(h.write _ _ _).read_foldl_of_not_mem hrest, h.read_write hw', if_pos ⟨rfl, rfl⟩]
        rintro v hv ⟨heq, -⟩
        exact hnodup.1 (heq ▸ List.mem_map_of_mem hv)
      · exact ih (h.write _ _ _) hrest hnodup.2 hmem

end RamStore

/-!
### Requested writes
-/

namespace State

variable {c : Circuit} {nets : NetTable} {w : RamWrite}

/-- A write is requested by the nets of its block. -/
theorem mem_writes_iff : w ∈ (updates c nets).writes ↔
    ∃ block, c.rams[w.block]? = some block ∧ writeRequest? nets w.block block = some w := by
  have hblock : ∀ {b : Nat} {block : RamBlock}, writeRequest? nets b block = some w →
      w.block = b := by
    intro b block hw
    rw [writeRequest?] at hw
    split at hw
    · cases hw
    · cases hw
      rfl
  simp only [updates, List.mem_filterMap, List.mem_zipIdx_iff_getElem?, Prod.exists]
  constructor
  · rintro ⟨block, b, hget, hw⟩
    cases hblock hw
    exact ⟨block, hget, hw⟩
  · rintro ⟨block, hget, hw⟩
    exact ⟨block, w.block, hget, hw⟩

/-- The requested writes are allowed, because they are masked to the widths of their blocks. -/
theorem allowed_of_mem_updates (h : w ∈ (updates c nets).writes) : w.Allowed c.rams := by
  obtain ⟨block, hblock, hw⟩ := mem_writes_iff.1 h
  refine ⟨block, hblock, ?_⟩
  rw [writeRequest?] at hw
  split at hw
  · cases hw
  · rw [← Option.some.inj hw]
    exact ⟨Word.toNat_and_mask_lt _ _, Word.toNat_and_mask_lt _ _⟩

/-- No block is written twice in a step. -/
theorem nodup_writes (c : Circuit) (nets : NetTable) :
    ((updates c nets).writes.map RamWrite.block).Nodup := by
  have hindex : c.rams.zipIdx.Pairwise (fun e e' => e.2 ≠ e'.2) :=
    List.pairwise_map.1 (List.nodup_zipIdx_map_snd c.rams)
  rw [List.Nodup, List.pairwise_map, updates, List.pairwise_filterMap]
  refine hindex.imp ?_
  intro e e' hne w hw w' hw'
  rw [writeRequest?] at hw hw'
  split at hw
  · cases hw
  · split at hw'
    · cases hw'
    · cases hw
      cases hw'
      exact hne

/-- After the requested writes, the cell at the requested address of a block holds the requested word if
    the write is enabled, and every other cell what it held. -/
theorem read_foldl_writes {ram : RamStore} (hram : ram.HasRoom c.rams) {b : Nat} {block : RamBlock}
    (hblock : c.rams[b]? = some block) (a : Word) :
    ((updates c nets).writes.foldl (fun ram w => ram.write w.block w.address w.data) ram).read b a =
      if block.writeEnable.read nets ≠ 0 ∧
          a = block.writeAddr.read nets &&& Word.mask block.addrWidth then
        block.writeData.read nets &&& Word.mask block.wordWidth
      else ram.read b a := by
  have hallowed : ∀ w ∈ (updates c nets).writes, w.Allowed c.rams :=
    fun w hw => allowed_of_mem_updates hw
  split
  · next hwritten =>
      obtain ⟨henable, rfl⟩ := hwritten
      have hmem : (⟨b, block.writeAddr.read nets &&& Word.mask block.addrWidth,
          block.writeData.read nets &&& Word.mask block.wordWidth⟩ : RamWrite) ∈
          (updates c nets).writes :=
        mem_writes_iff.2 ⟨block, hblock, by rw [writeRequest?, if_neg henable]⟩
      exact hram.read_foldl_of_mem hallowed (nodup_writes c nets) hmem
  · next hkept =>
      refine hram.read_foldl_of_not_mem hallowed ?_
      rintro w hw ⟨rfl, rfl⟩
      obtain ⟨block', hblock', hrequest⟩ := mem_writes_iff.1 hw
      rw [hblock] at hblock'
      cases hblock'
      rw [writeRequest?] at hrequest
      split at hrequest
      · cases hrequest
      · next henable =>
          -- the request is the one of the block, so its address is the requested one
          exact hkept ⟨henable, congrArg RamWrite.address (Option.some.inj hrequest).symm⟩

end State

end Netlist
