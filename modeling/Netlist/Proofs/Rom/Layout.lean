/-
Module: Netlist.Proofs.Rom.Layout
Layer: Proofs
Purpose: Where the words of an image go. A block starts behind all blocks whose names come before its own
  in the order of bytes, and an address reads the word at that place of the image, or the default word
  where the image has none. An image is refused for its length, or for its first word that is too wide for
  its place, and for nothing else; what was loaded before does not matter.
Imports: Netlist.Proofs.Assembly, Netlist.Proofs.Rom.Filling, Netlist.Proofs.Text.ByteOrder
Main exports: RomBlock.base, RomBlock.word?, RomCall, RomStore.calls, RomStore.mem_shares_byName_iff,
  Description.Checked.romNames_nodup, Description.load_lays_out_image
-/
import Netlist.Proofs.Assembly
import Netlist.Proofs.Rom.Filling
import Netlist.Proofs.Text.ByteOrder

namespace Netlist

namespace RomBlock

/-- The position in an image where a block among others starts: the blocks whose names come before its
    own, as bytes, take the words up to there. -/
def base (roms : List RomBlock) (block : RomBlock) : Nat :=
  ((roms.filter (fun other => Text.Utf8.encode other.name < Text.Utf8.encode block.name)).map
    (fun other => 2 ^ other.addrWidth)).sum

/-- The word of an image that belongs to address `k` of a block. -/
def word? (roms : List RomBlock) (words : List Word) (block : RomBlock) (k : Nat) : Option Word :=
  if k < 2 ^ block.addrWidth then words[block.base roms + k]? else none

/-- The word for address `k` of a block is too wide. -/
def Overflows (roms : List RomBlock) (words : List Word) (block : RomBlock) (k : Nat) (value : Word) :
    Prop :=
  block.word? roms words k = some value ∧ ¬ value.toNat < 2 ^ block.wordWidth

/-- A position in an image does not depend on the order in which blocks are listed. -/
theorem base_perm {roms others : List RomBlock} (h : roms.Perm others) (block : RomBlock) :
    block.base roms = block.base others :=
  ((h.filter _).map _).sum_nat

end RomBlock

/-- A call that loads words into a store. -/
inductive RomCall where
  | load (image : RomImage)
  /-- Loads an image in its text form. -/
  | loadBytes (bytes : List UInt8)
  /-- Loads a single block. -/
  | loadBlock (name : String) (words : List Word)

namespace RomStore

variable {store loaded : RomStore} {image : RomImage}

/-!
### Stores over time
-/

/-- The answer of a store to a call. -/
def answer (store : RomStore) : RomCall → Except RomError RomStore
  | .load image => store.load image
  | .loadBytes bytes => store.loadBytes bytes
  | .loadBlock name words => store.loadBlock name words

/-- What a call leaves of a store; a call that is refused leaves it as it is. -/
def call (store : RomStore) (request : RomCall) : RomStore :=
  match store.answer request with
  | .ok loaded => loaded
  | .error _ => store

/-- What a sequence of calls leaves of a store. -/
def calls (store : RomStore) (sequence : List RomCall) : RomStore :=
  sequence.foldl call store

/-- Two stores differ in nothing but the words that they hold. -/
structure Alike (store other : RomStore) : Prop where
  roms_eq : store.roms = other.roms
  defaultWord_eq : store.defaultWord = other.defaultWord
  strict_eq : store.strict = other.strict

/-- An image that is loaded fills the blocks with what filling gives. -/
theorem load_eq_ok (h : store.load image = .ok loaded) :
    ∃ filled, fill image.words 0 store.byName = ⟨filled, none⟩ ∧
      loaded = store.withFilled filled := by
  rw [load] at h
  split at h
  · cases h
  · split at h
    · cases h
    · next filled hfill =>
        cases h
        exact ⟨filled, hfill, rfl⟩

theorem load_alike (h : store.load image = .ok loaded) : loaded.Alike store := by
  obtain ⟨filled, -, rfl⟩ := load_eq_ok h
  exact ⟨store.roms_withFilled filled, rfl, rfl⟩

theorem loadBytes_alike {bytes : List UInt8} (h : store.loadBytes bytes = .ok loaded) :
    loaded.Alike store := by
  rw [loadBytes] at h
  split at h
  · cases h
    exact ⟨rfl, rfl, rfl⟩
  · obtain ⟨image, -, h⟩ := bind_eq_ok_iff.1 h
    exact load_alike h

theorem loadBlock_alike {name : String} {words : List Word}
    (h : store.loadBlock name words = .ok loaded) : loaded.Alike store := by
  rw [loadBlock] at h
  split at h
  · cases h
  · split at h
    · cases h
    · obtain ⟨taken, -, h⟩ := bind_eq_ok_iff.1 h
      cases h
      exact ⟨map_block_put store.blocks _ taken, rfl, rfl⟩

theorem call_alike (store : RomStore) (request : RomCall) : (store.call request).Alike store := by
  rw [call]
  split
  · next loaded h =>
      cases request with
      | load image => exact load_alike h
      | loadBytes bytes => exact loadBytes_alike h
      | loadBlock name words => exact loadBlock_alike h
  · exact ⟨rfl, rfl, rfl⟩

theorem calls_alike (store : RomStore) (sequence : List RomCall) :
    (store.calls sequence).Alike store := by
  induction sequence generalizing store with
  | nil => exact ⟨rfl, rfl, rfl⟩
  | cons request rest ih =>
      have hrest := ih (store.call request)
      have hcall := store.call_alike request
      exact ⟨hrest.roms_eq.trans hcall.roms_eq, hrest.defaultWord_eq.trans hcall.defaultWord_eq,
        hrest.strict_eq.trans hcall.strict_eq⟩

/-- The capacity is the number of all addresses, as far as a count reaches. -/
theorem capacity_eq (store : RomStore) :
    store.capacity = min Word.countLimit (store.roms.map (fun block => 2 ^ block.addrWidth)).sum := by
  have hfold : ∀ (blocks : List RomContents) (total : Nat),
      blocks.foldl (fun total c => Word.addCount total c.capacity) (min Word.countLimit total) =
        min Word.countLimit (total + (blocks.map (fun c => 2 ^ c.block.addrWidth)).sum) := by
    intro blocks
    induction blocks with
    | nil => intro total; rfl
    | cons contents rest ih =>
        intro total
        rw [List.foldl_cons, addCount_capacity, ih, List.map_cons, List.sum_cons, Nat.add_assoc]
  have hall := hfold store.blocks.toList 0
  rw [Nat.min_zero, Nat.zero_add] at hall
  rw [capacity, ← Array.foldl_toList, hall, roms, List.map_map]
  rfl

/-!
### Places
-/

theorem getElem?_words (image : List Word) (share : Share) (k : Nat) :
    (share.words image)[k]? =
      if k < 2 ^ share.block.addrWidth then image[share.start + k]? else none := by
  rw [Share.words, List.getElem?_take, List.getElem?_drop]

/-- In front of a block in the order of names are the blocks with smaller names. -/
theorem filter_lt_eq {order before after : List (Nat × RomContents)} {entry : Nat × RomContents}
    (hsorted : order.Pairwise (fun a b => a.2.block.name < b.2.block.name))
    (horder : order = before ++ entry :: after) :
    order.filter (fun e => e.2.block.name < entry.2.block.name) = before := by
  subst horder
  obtain ⟨-, hafter, hbefore⟩ := List.pairwise_append.1 hsorted
  rw [List.pairwise_cons] at hafter
  rw [List.filter_append, List.filter_cons_of_neg (by simp),
    List.filter_eq_self.2 (fun e he => by simpa using hbefore e he entry List.mem_cons_self),
    List.filter_eq_nil_iff.2 (fun e he => by simpa only [decide_eq_true_iff] using (hafter.1 e he).asymm),
    List.append_nil]

theorem byName_sorted (hnames : (store.roms.map RomBlock.name).Nodup) :
    store.byName.Pairwise (fun a b => a.2.block.name < b.2.block.name) := by
  have hnodup : (store.byName.map (fun e => e.2.block.name)).Nodup := by
    have hperm := store.blocks_perm.map RomBlock.name
    rw [List.map_map] at hperm
    exact hperm.nodup_iff.2 hnames
  have hne := List.pairwise_map.1 hnodup
  exact (store.byName_pairwise.and hne).imp (fun h => lt_of_le_of_ne h.1 h.2)

/-- Every block has one share, which starts at the place of the block. -/
theorem mem_shares_byName_iff (hnames : (store.roms.map RomBlock.name).Nodup) {share : Share} :
    share ∈ shares 0 store.byName ↔ store.roms[share.number]? = some share.block ∧
      share.start = share.block.base store.roms := by
  have hbase : ∀ {before after : List (Nat × RomContents)} {entry : Nat × RomContents},
      store.byName = before ++ entry :: after →
      (before.map (fun e => 2 ^ e.2.block.addrWidth)).sum = entry.2.block.base store.roms := by
    intro before after entry horder
    rw [← filter_lt_eq (byName_sorted hnames) horder, ← RomBlock.base_perm store.blocks_perm,
      RomBlock.base, List.filter_map, List.map_map]
    simp only [Text.Utf8.encode_lt_encode_iff]
    rfl
  rw [mem_shares_iff, getElem?_roms_eq_some_iff]
  constructor
  · rintro ⟨before, contents, after, horder, hblock, hstart⟩
    refine ⟨⟨contents, ?_, hblock.symm⟩, ?_⟩
    · rw [horder]
      exact List.mem_append_right _ List.mem_cons_self
    · rw [hstart, hbase horder, hblock, Nat.zero_add]
  · rintro ⟨⟨contents, hcontents, hblock⟩, hstart⟩
    obtain ⟨before, after, horder⟩ := List.append_of_mem hcontents
    refine ⟨before, contents, after, horder, hblock.symm, ?_⟩
    rw [hstart, hbase horder, hblock, Nat.zero_add]

/-- The words of a share are those of the addresses of its block. -/
theorem getElem?_words_byName (hnames : (store.roms.map RomBlock.name).Nodup) {share : Share}
    (hshare : share ∈ shares 0 store.byName) (words : List Word) (k : Nat) :
    (share.words words)[k]? = share.block.word? store.roms words k := by
  obtain ⟨-, hstart⟩ := (mem_shares_byName_iff hnames).1 hshare
  rw [getElem?_words, RomBlock.word?, hstart]

theorem exists_share (hnames : (store.roms.map RomBlock.name).Nodup) {block : RomBlock}
    (hblock : block ∈ store.roms) : ∃ share ∈ shares 0 store.byName, share.block = block := by
  obtain ⟨number, hnumber⟩ := List.mem_iff_getElem?.1 hblock
  exact ⟨⟨number, block, block.base store.roms⟩, (mem_shares_byName_iff hnames).2 ⟨hnumber, rfl⟩, rfl⟩

/-- A share fits exactly when no word of its block is too wide. -/
theorem fits_iff (hnames : (store.roms.map RomBlock.name).Nodup) {share : Share}
    (hshare : share ∈ shares 0 store.byName) (words : List Word) :
    share.Fits words ↔ ∀ k value, ¬ share.block.Overflows store.roms words k value := by
  have hword := getElem?_words_byName hnames hshare words
  constructor
  · rintro hfits k value ⟨hget, hwide⟩
    rw [← hword] at hget
    exact hwide (hfits value (List.mem_of_getElem? hget))
  · intro hnone value hvalue
    obtain ⟨k, hk⟩ := List.mem_iff_getElem?.1 hvalue
    rw [hword] at hk
    by_contra hwide
    exact hnone k value ⟨hk, hwide⟩

/-!
### Loading
-/

theorem refusesLength_iff {count : Nat} :
    store.refusesLength count = true ↔ store.strict = true ∧ count < store.capacity := by
  rw [refusesLength, Bool.and_eq_true, decide_eq_true_iff]

section Load

variable (hnames : (store.roms.map RomBlock.name).Nodup)
  (hlength : image.words.length ≤ Word.countLimit)
  (haccepts : store.refusesLength image.words.length = false)

include hnames hlength haccepts

/-- An image without a word that is too wide is loaded, and every address reads its word, or the default
    word where there is none. -/
theorem load_of_fits
    (hfits : ∀ block ∈ store.roms, ∀ k value, ¬ block.Overflows store.roms image.words k value) :
    ∃ loaded, store.load image = .ok loaded ∧ ∀ number block, store.roms[number]? = some block →
      ∀ address : Word, loaded.read number address =
        (block.word? store.roms image.words address.toNat).getD store.defaultWord := by
  have hshares : ∀ share ∈ shares 0 store.byName, share.Fits image.words := by
    intro share hshare
    obtain ⟨hnumber, -⟩ := (mem_shares_byName_iff hnames).1 hshare
    exact (fits_iff hnames hshare image.words).2 (hfits _ (List.mem_of_getElem? hnumber))
  have hfill := fill_of_fits hlength hshares
  rw [Nat.min_zero] at hfill
  refine ⟨store.withFilled _, by rw [load, haccepts, hfill]; rfl, ?_⟩
  intro number block hblock address
  have hshare : ⟨number, block, block.base store.roms⟩ ∈ shares 0 store.byName :=
    (mem_shares_byName_iff hnames).2 ⟨hblock, rfl⟩
  have hnodup : (((shares 0 store.byName).map
      (fun share => (share.number, share.words image.words))).map Prod.fst).Nodup := by
    rw [List.map_map]
    exact (shares_numbers 0 store.byName).symm ▸ store.numbers_nodup
  rw [read_withFilled store hnodup (List.mem_map.2 ⟨_, hshare, rfl⟩)
    (List.getElem?_eq_some_iff.1 hblock).1, ← getElem?_words_byName hnames hshare]

/-- An image with a word that is too wide is refused for the first of these words. -/
theorem load_of_overflows
    (h : ∃ block ∈ store.roms, ∃ k value, block.Overflows store.roms image.words k value) :
    ∃ block ∈ store.roms, ∃ k value,
      store.load image = .error (.wordTooWide block.name k value block.wordWidth) ∧
      block.Overflows store.roms image.words k value ∧
      ∀ other ∈ store.roms, ∀ j word, other.Overflows store.roms image.words j word →
        block.base store.roms + k ≤ other.base store.roms + j := by
  have hmisfit : ∃ share ∈ shares 0 store.byName, ¬ share.Fits image.words := by
    obtain ⟨block, hblock, k, value, hwide⟩ := h
    obtain ⟨share, hshare, rfl⟩ := exists_share hnames hblock
    exact ⟨share, hshare, fun hfits => (fits_iff hnames hshare image.words).1 hfits k value hwide⟩
  obtain ⟨share, hshare, k, value, hfault, hvalue, hwide, hleast⟩ := fill_of_misfit hlength hmisfit
  rw [Nat.min_zero] at hfault
  obtain ⟨hnumber, hstart⟩ := (mem_shares_byName_iff hnames).1 hshare
  rw [getElem?_words_byName hnames hshare] at hvalue
  refine ⟨share.block, List.mem_of_getElem? hnumber, k, value, ?_, ⟨hvalue, hwide⟩, ?_⟩
  · rw [load, haccepts]
    cases hfill : fill image.words 0 store.byName with
    | mk filled fault =>
        rw [hfill] at hfault
        cases hfault
        rfl
  · rintro other hother j word ⟨hword, hword'⟩
    obtain ⟨otherShare, hotherShare, rfl⟩ := exists_share hnames hother
    rw [← getElem?_words_byName hnames hotherShare] at hword
    have hle := hleast otherShare hotherShare j word hword hword'
    rwa [hstart, ((mem_shares_byName_iff hnames).1 hotherShare).2] at hle

end Load

theorem roms_ofCircuit (c : Circuit) (config : Config) : (ofCircuit c config).roms = c.roms := by
  rw [roms, ofCircuit, List.toList_toArray, List.map_map]
  exact List.map_id c.roms

end RomStore

namespace Description

/-- Different parts have different names, because they drive different nets. -/
theorem Checked.names_pairwise {d : Description} {limit : Nat} {inputs outputs : List Pin}
    {parts : List Part} (h : d.Checked limit inputs outputs parts) :
    parts.Pairwise (fun a b => a.name ≠ b.name) := by
  have hfind : ∀ part ∈ parts, (d.scope limit).find part.name = .ok part.target := by
    intro part hpart
    obtain ⟨k, hk⟩ := List.mem_iff_getElem?.1 hpart
    obtain ⟨eq, -, hfind, hname, -⟩ := h.elaborates hk
    exact hname ▸ hfind
  have htargets : (parts.map Part.target).Nodup :=
    (h.driven.nodup (fun _ hid => h.driven_lt hid)).of_append_right
  refine (List.pairwise_map.1 htargets).imp_of_mem ?_
  intro a b ha hb hne hname
  have hsame := hfind a ha
  rw [hname, hfind b hb] at hsame
  exact hne (Except.ok.inj hsame).symm

/-- The ROM blocks of a checked description have different names. -/
theorem Checked.romNames_nodup {d : Description} {limit : Nat} {inputs outputs : List Pin}
    {parts : List Part} (h : d.Checked limit inputs outputs parts) :
    ((parts.filterMap Part.romBlock?).map RomBlock.name).Nodup := by
  rw [List.Nodup, List.pairwise_map, List.pairwise_filterMap]
  refine h.names_pairwise.imp ?_
  intro a b hne block hblock other hother
  rw [(Part.romBlock?_eq_some hblock).1, (Part.romBlock?_eq_some hother).1]
  exact hne

/-- The layout of ROM images. Whatever a store of a compiled description holds, an image that is too
    short is refused where that matters. Any other image is loaded exactly when each of its words fits the
    block that it falls into, and then every address reads the word at its place, or the default word
    where the image has none; else the first word that does not fit is reported. Capacities that stop at
    the largest count decide about lengths as exact ones would. -/
theorem load_lays_out_image {d : Description} {config : Config} {c : Circuit}
    (h : d.compile config = .ok c) (settings : Config) (history : List RomCall) (image : RomImage)
    (hlength : image.words.length < 2 ^ 63) :
    let store := (RomStore.ofCircuit c settings).calls history
    let short := settings.strictImageLength = true ∧ image.words.length < store.capacity
    (image.words.length < store.capacity ↔
      image.words.length < (c.roms.map (fun block => 2 ^ block.addrWidth)).sum) ∧
    (short → store.load image = .error (.imageTooShort store.capacity image.words.length)) ∧
    (¬ short →
      ((∃ loaded, store.load image = .ok loaded) ↔ ∀ block ∈ c.roms, ∀ k word,
        block.word? c.roms image.words k = some word → word.toNat < 2 ^ block.wordWidth) ∧
      (∀ loaded, store.load image = .ok loaded → ∀ number block, c.roms[number]? = some block →
        ∀ address : Word, loaded.read number address =
          (block.word? c.roms image.words address.toNat).getD settings.defaultWord) ∧
      (∀ fault, store.load image = .error fault → ∃ block ∈ c.roms, ∃ k value,
        fault = .wordTooWide block.name k value block.wordWidth ∧
        block.Overflows c.roms image.words k value ∧
        ∀ other ∈ c.roms, ∀ j word, other.Overflows c.roms image.words j word →
          block.base c.roms + k ≤ other.base c.roms + j)) := by
  obtain ⟨inputs, outputs, parts, schedule, hchecked, -, rfl⟩ := compile_eq_ok_iff.1 h
  intro store short
  have hcount : image.words.length < Word.countLimit := lt_of_lt_of_le hlength (by decide)
  have halike := RomStore.calls_alike (RomStore.ofCircuit
    (d.circuit inputs outputs parts schedule) settings) history
  have hroms : store.roms = (d.circuit inputs outputs parts schedule).roms :=
    halike.roms_eq.trans (RomStore.roms_ofCircuit _ _)
  have hdefault : store.defaultWord = settings.defaultWord := halike.defaultWord_eq
  have hshort : short ↔ store.refusesLength image.words.length = true := by
    rw [RomStore.refusesLength_iff, halike.strict_eq]
    rfl
  have hnames : (store.roms.map RomBlock.name).Nodup := hroms ▸ hchecked.romNames_nodup
  rw [← hroms]
  refine ⟨?_, ?_, ?_⟩
  · rw [RomStore.capacity_eq]
    omega
  · intro hrefused
    rw [RomStore.load, if_pos (hshort.1 hrefused)]
  · intro haccepted
    rw [hshort, Bool.not_eq_true] at haccepted
    rw [← hdefault]
    have hiff : (∀ block ∈ store.roms, ∀ k word, block.word? store.roms image.words k = some word →
        word.toNat < 2 ^ block.wordWidth) ↔
        ∀ block ∈ store.roms, ∀ k value, ¬ block.Overflows store.roms image.words k value := by
      simp only [RomBlock.Overflows, not_and_not_right]
    rw [hiff]
    by_cases hfits : ∀ block ∈ store.roms, ∀ k value,
        ¬ block.Overflows store.roms image.words k value
    · obtain ⟨loaded, hload, hreads⟩ := RomStore.load_of_fits hnames hcount.le haccepted hfits
      rw [hload]
      refine ⟨iff_of_true ⟨loaded, rfl⟩ hfits, ?_, ?_⟩
      · intro loaded' hsame
        cases hsame
        exact hreads
      · intro fault hfault
        cases hfault
    · have hover : ∃ block ∈ store.roms, ∃ k value, block.Overflows store.roms image.words k value := by
        simpa only [not_forall, exists_prop, not_not] using hfits
      obtain ⟨block, hblock, k, value, hload, hfirst⟩ :=
        RomStore.load_of_overflows hnames hcount.le haccepted hover
      rw [hload]
      refine ⟨iff_of_false (fun ⟨_, hok⟩ => by cases hok) hfits, ?_, ?_⟩
      · intro loaded hok
        cases hok
      · intro fault hfault
        cases hfault
        exact ⟨block, hblock, k, value, rfl, hfirst⟩

/-- Two tables with a common address, listed against the order of their names. -/
def tables : Description where
  name := "tables"
  inputs := ["address"]
  outputs := ["two", "one"]
  nets := [⟨"address", 1⟩, ⟨"two", 3⟩, ⟨"one", 2⟩]
  equations := [
    { target := "two", op := .rom, args := [.net "address"], params := [1, 3] },
    { target := "one", op := .rom, args := [.net "address"], params := [1, 2] }]

/-- The first words of an image go to the block `one`, although it is the second block. The image ends
    within the other block, where an address reads the default word in place of the word from before. -/
theorem load_lays_out_tables : ∃ c, tables.compile .standard = .ok c ∧ [1, 3, 7].length < 2 ^ 63 ∧
    ∃ loaded, ((RomStore.ofCircuit c .standard).calls [.load ⟨[3, 3, 6, 6], false⟩]).load
      ⟨[1, 3, 7], false⟩ = .ok loaded ∧
      loaded.read 1 0 = 1 ∧ loaded.read 1 1 = 3 ∧ loaded.read 0 0 = 7 ∧ loaded.read 0 1 = 0 := by
  obtain ⟨c, hc⟩ := exists_eq_ok_of_isOk (x := tables.compile .standard) (by decide +kernel)
  have hcompiled : (match tables.compile .standard with
      | .ok c => decide (c.roms = [⟨"two", 1, 3⟩, ⟨"one", 1, 2⟩]) &&
          (((RomStore.ofCircuit c .standard).calls [.load ⟨[3, 3, 6, 6], false⟩]).load
            ⟨[1, 3, 7], false⟩).isOk
      | .error _ => false) = true := by
    decide +kernel
  rw [hc, Bool.and_eq_true, decide_eq_true_iff] at hcompiled
  obtain ⟨hroms, hload⟩ := hcompiled
  obtain ⟨loaded, hload⟩ := exists_eq_ok_of_isOk hload
  obtain ⟨-, -, hlayout⟩ := load_lays_out_image hc .standard [.load ⟨[3, 3, 6, 6], false⟩]
    ⟨[1, 3, 7], false⟩ (by decide)
  obtain ⟨-, hreads, -⟩ := hlayout (fun hshort => absurd hshort.1 (by decide))
  have hread := hreads loaded hload
  rw [hroms] at hread
  refine ⟨c, hc, by decide, loaded, hload, ?_, ?_, ?_, ?_⟩
  · exact (hread 1 _ rfl 0).trans (by decide +kernel)
  · exact (hread 1 _ rfl 1).trans (by decide +kernel)
  · exact (hread 0 _ rfl 0).trans (by decide +kernel)
  · exact (hread 0 _ rfl 1).trans (by decide +kernel)

end Description

end Netlist
