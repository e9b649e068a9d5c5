/-
Module: Netlist.Proofs.Rom.Filling
Layer: Proofs
Purpose: How an image is shared out. Blocks are filled one after the other, so each has a place in the
  image where its share starts, and a share that is too wide somewhere stops the filling at the first
  such word of the whole image. Counts stop at the largest count, but no image has a word there, so the
  places of shares are plain sums.
Imports: Mathlib.Data.List.Sort, Mathlib.Data.String.Basic, Netlist.Proofs.Word, Netlist.Rom.Store
Main exports: RomStore.Share, RomStore.shares, RomStore.fill_of_fits, RomStore.fill_of_misfit,
  RomStore.byName_perm, RomStore.byName_pairwise, RomStore.withFilled,
  RomStore.read_withFilled
-/
import Mathlib.Data.List.Sort
import Mathlib.Data.String.Basic
import Netlist.Proofs.Word
import Netlist.Rom.Store

namespace Netlist

/-!
### Counts
-/

namespace Word

theorem addressSpace_eq (addrWidth : Nat) : addressSpace addrWidth = min countLimit (2 ^ addrWidth) := by
  rw [addressSpace]
  split
  · next h =>
      have hpow : 2 ^ maxWidth ≤ 2 ^ addrWidth := Nat.pow_le_pow_right (by decide) h
      have hlimit : countLimit ≤ 2 ^ maxWidth := by decide
      omega
  · next h =>
      have hpow : 2 ^ addrWidth ≤ 2 ^ 63 := Nat.pow_le_pow_right (by decide) (by grind [maxWidth])
      have hlimit : 2 ^ 63 ≤ countLimit := by decide
      exact (Nat.min_eq_right (hpow.trans hlimit)).symm

/-- A sum that stops at the largest count is the plain sum, stopped at the end. -/
theorem addCount_min (m n : Nat) :
    addCount (min countLimit m) (min countLimit n) = min countLimit (m + n) := by
  rw [addCount]
  omega

end Word

/-!
### One block
-/

namespace RomContents

variable {contents : RomContents} {words taken : List Word} {fault : RomError}

/-- A block takes words from the front exactly when they all fit. -/
theorem accept_eq_ok_iff : contents.accept words = .ok taken ↔
    taken = words.take contents.capacity ∧
      ∀ word ∈ words.take contents.capacity, word.toNat < 2 ^ contents.block.wordWidth := by
  rw [accept]
  cases hfind : (words.take contents.capacity).zipIdx.find?
      (fun e => !Word.fits e.1 contents.block.wordWidth) with
  | some found =>
      simp only [reduceCtorEq, false_iff, not_and, not_forall]
      rintro -
      have hmem := List.mem_of_find?_eq_some hfind
      have hwide := List.find?_some hfind
      refine ⟨found.1, (List.mem_iff_getElem?.2 ⟨_, List.mem_zipIdx_iff_getElem?.1 hmem⟩), ?_⟩
      rw [← Word.fits_iff]
      simpa using hwide
  | none =>
      rw [List.find?_eq_none] at hfind
      simp only [Except.ok.injEq]
      constructor
      · rintro rfl
        refine ⟨rfl, fun word hword => Word.fits_iff.1 ?_⟩
        obtain ⟨k, hk⟩ := List.mem_iff_getElem?.1 hword
        simpa using hfind (word, k) (List.mem_zipIdx_iff_getElem?.2 hk)
      · rintro ⟨rfl, -⟩
        rfl

/-- A refused word is the first that is too wide. -/
theorem accept_eq_error (h : contents.accept words = .error fault) :
    ∃ k value, fault = .wordTooWide contents.block.name k value contents.block.wordWidth ∧
      (words.take contents.capacity)[k]? = some value ∧
      ¬ value.toNat < 2 ^ contents.block.wordWidth ∧
      ∀ j word, (words.take contents.capacity)[j]? = some word →
        ¬ word.toNat < 2 ^ contents.block.wordWidth → k ≤ j := by
  rw [accept] at h
  generalize words.take contents.capacity = front at h ⊢
  split at h
  · next value k hfind =>
      cases h
      obtain ⟨hwide, i, hi, hget, hbefore⟩ := List.find?_eq_some_iff_getElem.1 hfind
      have hlt : i < front.length := by simpa using hi
      obtain ⟨rfl, rfl⟩ : front[i] = value ∧ i = k := by simpa using hget
      refine ⟨i, _, rfl, List.getElem?_eq_getElem _, ?_, ?_⟩
      · rw [← Word.fits_iff]
        simpa using hwide
      · intro j word hword hwide
        by_contra hlt
        obtain ⟨hj, rfl⟩ := List.getElem?_eq_some_iff.1 hword
        have hfits := hbefore j (Nat.not_le.1 hlt)
        rw [← Word.fits_iff] at hwide
        simp only [List.getElem_zipIdx, Bool.not_not] at hfits
        exact hwide hfits
  · cases h

end RomContents

/-!
### The order of blocks
-/

namespace RomStore

/-- The blocks of a store, by block number. -/
def roms (store : RomStore) : List RomBlock :=
  store.blocks.toList.map RomContents.block

theorem insertByName_eq (entry : Nat × RomContents) (order : List (Nat × RomContents)) :
    insertByName entry order =
      order.orderedInsert (fun a b => a.2.block.name ≤ b.2.block.name) entry := by
  induction order with
  | nil => rfl
  | cons other rest ih =>
      rw [insertByName, List.orderedInsert_cons, ih]

/-- Blocks are sorted by their names. -/
theorem byName_eq (store : RomStore) : store.byName =
    (store.blocks.toList.zipIdx.map (fun e => (e.2, e.1))).insertionSort
      (fun a b => a.2.block.name ≤ b.2.block.name) := by
  rw [byName, List.insertionSort]
  congr 1
  funext entry order
  exact insertByName_eq entry order

theorem byName_perm (store : RomStore) :
    store.byName.Perm (store.blocks.toList.zipIdx.map (fun e => (e.2, e.1))) := by
  rw [byName_eq]
  exact List.perm_insertionSort _ _

theorem byName_pairwise (store : RomStore) :
    store.byName.Pairwise (fun a b => a.2.block.name ≤ b.2.block.name) := by
  rw [byName_eq]
  have htrans : IsTrans (Nat × RomContents) (fun a b => a.2.block.name ≤ b.2.block.name) :=
    ⟨fun _ _ _ => le_trans⟩
  have htotal : Std.Total (fun a b : Nat × RomContents => a.2.block.name ≤ b.2.block.name) :=
    ⟨fun _ _ => le_total _ _⟩
  exact List.pairwise_insertionSort _ _

theorem mem_byName_iff {store : RomStore} {number : Nat} {contents : RomContents} :
    (number, contents) ∈ store.byName ↔ store.blocks[number]? = some contents := by
  rw [store.byName_perm.mem_iff]
  simp [List.mem_zipIdx_iff_getElem?]

theorem getElem?_roms_eq_some_iff {store : RomStore} {number : Nat} {block : RomBlock} :
    store.roms[number]? = some block ↔
      ∃ contents, (number, contents) ∈ store.byName ∧ contents.block = block := by
  simp only [roms, List.getElem?_map, Array.getElem?_toList, Option.map_eq_some_iff, mem_byName_iff]

theorem numbers_nodup (store : RomStore) : (store.byName.map Prod.fst).Nodup := by
  rw [(store.byName_perm.map Prod.fst).nodup_iff, List.map_map]
  have hnumbers : Prod.fst ∘ (fun e : RomContents × Nat => (e.2, e.1)) = Prod.snd := rfl
  rw [hnumbers, List.zipIdx_map_snd]
  exact List.nodup_range'

theorem blocks_perm (store : RomStore) :
    (store.byName.map (fun e => e.2.block)).Perm store.roms := by
  refine (store.byName_perm.map _).trans (List.Perm.of_eq ?_)
  rw [List.map_map, roms]
  have hblock : (fun e : Nat × RomContents => e.2.block) ∘ (fun e : RomContents × Nat => (e.2, e.1)) =
      RomContents.block ∘ Prod.fst := rfl
  rw [hblock, ← List.map_map, List.zipIdx_map_fst]

/-!
### Shares
-/

/-- The share of a block in an image. -/
structure Share where
  /-- The number of the block. -/
  number : Nat
  block : RomBlock
  /-- The position in the image where the share starts. -/
  start : Nat

/-- The words of a share, as far as the image has them. -/
def Share.words (image : List Word) (share : Share) : List Word :=
  (image.drop share.start).take (2 ^ share.block.addrWidth)

/-- All words of a share fit the block. -/
def Share.Fits (image : List Word) (share : Share) : Prop :=
  ∀ word ∈ share.words image, word.toNat < 2 ^ share.block.wordWidth

/-- The shares of blocks that are filled in a given order from a position on. -/
def shares : Nat → List (Nat × RomContents) → List Share
  | _, [] => []
  | start, (number, contents) :: rest =>
    ⟨number, contents.block, start⟩ :: shares (start + 2 ^ contents.block.addrWidth) rest

variable {image : List Word} {order : List (Nat × RomContents)} {start : Nat} {share : Share}

theorem shares_numbers (start : Nat) (order : List (Nat × RomContents)) :
    (shares start order).map Share.number = order.map Prod.fst := by
  induction order generalizing start with
  | nil => rfl
  | cons entry rest ih => rw [shares, List.map_cons, List.map_cons, ih]

theorem le_start_of_mem_shares (h : share ∈ shares start order) : start ≤ share.start := by
  induction order generalizing start with
  | nil => cases h
  | cons entry rest ih =>
      rcases List.mem_cons.1 h with rfl | h
      · exact Nat.le_refl _
      · exact (Nat.le_add_right _ _).trans (ih h)

/-- The share of a block starts behind those of all blocks before it. -/
theorem mem_shares_iff : share ∈ shares start order ↔
    ∃ before contents after, order = before ++ (share.number, contents) :: after ∧
      share.block = contents.block ∧
      share.start = start + (before.map (fun e => 2 ^ e.2.block.addrWidth)).sum := by
  induction order generalizing start with
  | nil => simp [shares]
  | cons entry rest ih =>
      rw [shares, List.mem_cons, ih]
      constructor
      · rintro (rfl | ⟨before, contents, after, rfl, hblock, hstart⟩)
        · exact ⟨[], entry.2, rest, rfl, rfl, rfl⟩
        · refine ⟨entry :: before, contents, after, rfl, hblock, ?_⟩
          rw [hstart, List.map_cons, List.sum_cons, Nat.add_assoc]
      · rintro ⟨before, contents, after, horder, hblock, hstart⟩
        cases before with
        | nil =>
            left
            obtain ⟨rfl, rfl⟩ := List.cons.inj horder
            cases share
            simp_all
        | cons first before =>
            right
            obtain ⟨rfl, rfl⟩ := List.cons.inj horder
            refine ⟨before, contents, after, rfl, hblock, ?_⟩
            rw [hstart, List.map_cons, List.sum_cons, Nat.add_assoc]

/-!
### Filling
-/

/-- What a block takes at a count that may have stopped is its share, because the image ends before. -/
theorem take_capacity (hlength : image.length ≤ Word.countLimit) (contents : RomContents)
    (number start : Nat) : (image.drop (min Word.countLimit start)).take contents.capacity =
      (Share.mk number contents.block start).words image := by
  have hdrop : image.drop (min Word.countLimit start) = image.drop start := by
    rcases Nat.le_total Word.countLimit start with h | h
    · rw [Nat.min_eq_left h, List.drop_eq_nil_of_le hlength, List.drop_eq_nil_of_le (hlength.trans h)]
    · rw [Nat.min_eq_right h]
  rw [Share.words, hdrop, RomContents.capacity, Word.addressSpace_eq, ← List.take_take]
  refine List.take_of_length_le ?_
  rw [List.length_take, List.length_drop]
  omega

/-- The next block starts where the share of the last one ends. -/
theorem addCount_capacity (start : Nat) (contents : RomContents) :
    Word.addCount (min Word.countLimit start) contents.capacity =
      min Word.countLimit (start + 2 ^ contents.block.addrWidth) := by
  rw [RomContents.capacity, Word.addressSpace_eq, Word.addCount_min]

/-- When all shares fit, every block gets its share. -/
theorem fill_of_fits (hlength : image.length ≤ Word.countLimit)
    (hfits : ∀ share ∈ shares start order, share.Fits image) :
    fill image (min Word.countLimit start) order =
      ⟨(shares start order).map (fun share => (share.number, share.words image)), none⟩ := by
  induction order generalizing start with
  | nil => rfl
  | cons entry rest ih =>
      obtain ⟨number, contents⟩ := entry
      rw [shares, List.forall_mem_cons] at hfits
      have haccept : contents.accept (image.drop (min Word.countLimit start)) =
          .ok ((Share.mk number contents.block start).words image) := by
        rw [RomContents.accept_eq_ok_iff, take_capacity hlength contents number start]
        exact ⟨rfl, hfits.1⟩
      rw [fill, haccept]
      simp only
      rw [addCount_capacity, ih hfits.2, shares, List.map_cons]

/-- When some share does not fit, the fault is the first word of the image that is too wide for its
    place. -/
theorem fill_of_misfit (hlength : image.length ≤ Word.countLimit)
    (hmisfit : ∃ share ∈ shares start order, ¬ share.Fits image) :
    ∃ share ∈ shares start order, ∃ k value,
      (fill image (min Word.countLimit start) order).fault =
        some (.wordTooWide share.block.name k value share.block.wordWidth) ∧
      (share.words image)[k]? = some value ∧ ¬ value.toNat < 2 ^ share.block.wordWidth ∧
      ∀ other ∈ shares start order, ∀ j word, (other.words image)[j]? = some word →
        ¬ word.toNat < 2 ^ other.block.wordWidth → share.start + k ≤ other.start + j := by
  induction order generalizing start with
  | nil => simp [shares] at hmisfit
  | cons entry rest ih =>
      obtain ⟨number, contents⟩ := entry
      have hwords := take_capacity hlength contents number start
      rw [fill]
      cases haccept : contents.accept (image.drop (min Word.countLimit start)) with
      | error fault =>
          -- the first block has the fault, and every later share starts behind it
          obtain ⟨k, value, rfl, hvalue, hwide, hleast⟩ := RomContents.accept_eq_error haccept
          rw [hwords] at hvalue hleast
          refine ⟨_, List.mem_cons_self, k, value, rfl, hvalue, hwide, ?_⟩
          intro other hother j word hword hword'
          rcases List.mem_cons.1 hother with rfl | hother
          · exact Nat.add_le_add_left (hleast j word hword hword') _
          · have hstart := le_start_of_mem_shares hother
            have hk : k < 2 ^ contents.block.addrWidth := by
              have hlt := (List.getElem?_eq_some_iff.1 hvalue).1
              rw [Share.words, List.length_take] at hlt
              exact lt_of_lt_of_le hlt (Nat.min_le_left _ _)
            exact (Nat.add_le_add_left hk.le _).trans (hstart.trans (Nat.le_add_right _ _))
      | ok taken =>
          -- the first block has none, so the fault is that of the later ones
          obtain ⟨-, hfirst⟩ := RomContents.accept_eq_ok_iff.1 haccept
          rw [hwords] at hfirst
          rw [shares] at hmisfit ⊢
          have hlater : ∃ share ∈ shares (start + 2 ^ contents.block.addrWidth) rest,
              ¬ share.Fits image := by
            obtain ⟨share, hshare, hnot⟩ := hmisfit
            rcases List.mem_cons.1 hshare with rfl | hshare
            · exact absurd hfirst hnot
            · exact ⟨share, hshare, hnot⟩
          obtain ⟨share, hshare, k, value, hfault, hvalue, hwide, hleast⟩ := ih hlater
          simp only
          rw [addCount_capacity]
          refine ⟨share, List.mem_cons_of_mem _ hshare, k, value, hfault, hvalue, hwide, ?_⟩
          intro other hother j word hword hword'
          rcases List.mem_cons.1 hother with rfl | hother
          · exact absurd (hfirst word (List.mem_of_getElem? hword)) hword'
          · exact hleast other hother j word hword hword'

/-!
### What is put into blocks
-/

variable {blocks : Array RomContents} {filled : List (Nat × List Word)} {number : Nat}

theorem getElem?_put (blocks : Array RomContents) (number : Nat) (words : List Word) (i : Nat) :
    (put blocks number words)[i]? = if number = i then
      blocks[i]?.map (fun contents => { contents with words := words.toArray }) else blocks[i]? := by
  rw [put, Array.getElem?_modify]

theorem getElem?_foldl_put_of_notMem (h : number ∉ filled.map Prod.fst) :
    (filled.foldl (fun blocks e => put blocks e.1 e.2) blocks)[number]? = blocks[number]? := by
  induction filled generalizing blocks with
  | nil => rfl
  | cons entry rest ih =>
      rw [List.map_cons, List.mem_cons, not_or] at h
      rw [List.foldl_cons, ih h.2, getElem?_put, if_neg (Ne.symm h.1)]

/-- A block holds the words that are put into it, whatever it held. -/
theorem getElem?_foldl_put_of_mem (hnodup : (filled.map Prod.fst).Nodup) {words : List Word}
    (h : (number, words) ∈ filled) :
    (filled.foldl (fun blocks e => put blocks e.1 e.2) blocks)[number]? =
      blocks[number]?.map (fun contents => { contents with words := words.toArray }) := by
  induction filled generalizing blocks with
  | nil => cases h
  | cons entry rest ih =>
      rw [List.map_cons, List.nodup_cons] at hnodup
      rw [List.foldl_cons]
      rcases List.mem_cons.1 h with rfl | h
      · rw [getElem?_foldl_put_of_notMem hnodup.1, getElem?_put, if_pos rfl]
      · have hne : entry.1 ≠ number := by
          rintro rfl
          exact hnodup.1 (List.mem_map.2 ⟨_, h, rfl⟩)
        rw [ih hnodup.2 h, getElem?_put, if_neg hne]

/-- A store in which blocks have been filled. -/
def withFilled (store : RomStore) (filled : List (Nat × List Word)) : RomStore :=
  { store with
    blocks := filled.foldl (fun blocks e => put blocks e.1 e.2) store.blocks
    loaded := true }

/-- An address of a block reads the word that is put there, or the default word behind the last. -/
theorem read_withFilled (store : RomStore) (hnodup : (filled.map Prod.fst).Nodup) {words : List Word}
    (h : (number, words) ∈ filled) (hnumber : number < store.roms.length) (address : Word) :
    (store.withFilled filled).read number address =
      words[address.toNat]?.getD store.defaultWord := by
  have hlt : number < store.blocks.size := by simpa [roms] using hnumber
  rw [withFilled, read, getElem?_foldl_put_of_mem hnodup h, Array.getElem?_eq_getElem hlt]
  change words.toArray.getD address.toNat store.defaultWord = _
  rw [Array.getD_eq_getD_getElem?, List.getElem?_toArray]

theorem map_block_put (blocks : Array RomContents) (number : Nat) (words : List Word) :
    (put blocks number words).toList.map RomContents.block = blocks.toList.map RomContents.block := by
  refine List.ext_getElem? (fun i => ?_)
  rw [List.getElem?_map, List.getElem?_map, Array.getElem?_toList, Array.getElem?_toList, getElem?_put]
  split
  · rw [Option.map_map]
    rfl
  · rfl

/-- Filling changes no block. -/
theorem roms_withFilled (store : RomStore) (filled : List (Nat × List Word)) :
    (store.withFilled filled).roms = store.roms := by
  rw [withFilled, roms, roms]
  generalize store.blocks = blocks
  induction filled generalizing blocks with
  | nil => rfl
  | cons entry rest ih => rw [List.foldl_cons, ih, map_block_put]

end RomStore

end Netlist
