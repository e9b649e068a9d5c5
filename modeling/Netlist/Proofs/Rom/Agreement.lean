/-
Module: Netlist.Proofs.Rom.Agreement
Layer: Proofs
Purpose: Stores that number the same blocks differently. Images are shared out in the order of names, so
  they go to the blocks of both stores alike: an image is loaded into both or refused by both for the same
  reason, and blocks that read the same words before do so after.
Imports: Netlist.Proofs.Rom.Layout
Main exports: RomStore.Matches, RomStore.fill_congr, RomStore.Matches.load,
  RomStore.Matches.call_load
-/
import Netlist.Proofs.Rom.Layout

namespace Netlist

namespace RomStore

variable {store store' : RomStore} {words : List Word} {order order' : List (Nat × RomContents)}

/-- Two stores have the same blocks with the same words, though perhaps under different numbers. -/
structure Matches (store store' : RomStore) : Prop where
  roms : store.roms.Perm store'.roms
  names : (store.roms.map RomBlock.name).Nodup
  defaultWord_eq : store.defaultWord = store'.defaultWord
  strict_eq : store.strict = store'.strict
  read_eq : ∀ {number number' : Nat} {block : RomBlock}, store.roms[number]? = some block →
    store'.roms[number']? = some block → ∀ address : Word,
      store.read number address = store'.read number' address

/-!
### Filling
-/

theorem fill_numbers {offset : Nat} (h : (fill words offset order).fault = none) :
    (fill words offset order).filled.map Prod.fst = order.map Prod.fst := by
  induction order generalizing offset with
  | nil => rfl
  | cons entry rest ih =>
      obtain ⟨number, contents⟩ := entry
      rw [fill] at h ⊢
      cases haccept : contents.accept (words.drop offset) with
      | error fault => simp [haccept] at h
      | ok taken =>
          simp only [haccept] at h ⊢
          rw [List.map_cons, List.map_cons, ih h]

/-- Filling depends on the blocks alone, not on their numbers and what they held. -/
theorem fill_congr (h : List.Forall₂ (fun e e' => e.2.block = e'.2.block) order order')
    (words : List Word) (offset : Nat) :
    (fill words offset order).fault = (fill words offset order').fault ∧
      ((fill words offset order).fault = none →
        List.Forall₂ (fun e e' => e.2.block = e'.2.block ∧ ∃ taken,
          (e.1, taken) ∈ (fill words offset order).filled ∧
          (e'.1, taken) ∈ (fill words offset order').filled) order order') := by
  induction h generalizing offset with
  | nil => exact ⟨rfl, fun _ => .nil⟩
  | @cons e e' rest rest' hblock _ ih =>
      obtain ⟨number, contents⟩ := e
      obtain ⟨number', contents'⟩ := e'
      have hcapacity : contents'.capacity = contents.capacity := by
        rw [RomContents.capacity, RomContents.capacity, hblock]
      have haccept' : contents'.accept (words.drop offset) = contents.accept (words.drop offset) := by
        rw [RomContents.accept, RomContents.accept, hcapacity, hblock]
      rw [fill, fill, haccept', hcapacity]
      cases haccept : contents.accept (words.drop offset) with
      | error fault => exact ⟨rfl, fun hnone => by cases hnone⟩
      | ok taken =>
          obtain ⟨hfault, hfilled⟩ := ih (Word.addCount offset contents.capacity)
          refine ⟨hfault, fun hnone => .cons ⟨hblock, taken, ?_, ?_⟩ ((hfilled hnone).imp ?_)⟩
          · exact List.mem_cons_self
          · exact List.mem_cons_self
          · rintro a b ⟨hab, later, hlater, hlater'⟩
            exact ⟨hab, later, List.mem_cons_of_mem _ hlater, List.mem_cons_of_mem _ hlater'⟩

/-- The blocks of two stores that match come in the same order of names. -/
theorem Matches.byName (h : store.Matches store') :
    List.Forall₂ (fun e e' => e.2.block = e'.2.block) store.byName store'.byName := by
  have hnames' : (store'.roms.map RomBlock.name).Nodup := (h.roms.map _).nodup_iff.1 h.names
  have hperm : (store.byName.map (fun e => e.2.block)).Perm (store'.byName.map (fun e => e.2.block)) :=
    store.blocks_perm.trans (h.roms.trans store'.blocks_perm.symm)
  have hsorted : ∀ {store : RomStore}, (store.roms.map RomBlock.name).Nodup →
      (store.byName.map (fun e => e.2.block)).Pairwise (fun a b => a.name < b.name) :=
    fun hnames => List.pairwise_map.2 (byName_sorted hnames)
  have heq := hperm.eq_of_pairwise (fun a b _ _ hab hba => absurd hba hab.asymm) (hsorted h.names)
    (hsorted hnames')
  rwa [← List.forall₂_eq_eq_eq, List.forall₂_map_left_iff, List.forall₂_map_right_iff] at heq

/-!
### Loading
-/

theorem Matches.capacity_eq (h : store.Matches store') : store.capacity = store'.capacity := by
  have hsum := (h.roms.map (fun block => 2 ^ block.addrWidth)).sum_nat
  rw [RomStore.capacity_eq, RomStore.capacity_eq, hsum]

/-- When an image is shared out over two stores that match, blocks that are the same read the same
    words. -/
theorem Matches.read_filled (h : store.Matches store') {filled filled' : List (Nat × List Word)}
    (hfill : fill words 0 store.byName = ⟨filled, none⟩)
    (hfill' : fill words 0 store'.byName = ⟨filled', none⟩) {number number' : Nat} {block : RomBlock}
    (hblock : store.roms[number]? = some block) (hblock' : store'.roms[number']? = some block)
    (address : Word) :
    (store.withFilled filled).read number address =
      (store'.withFilled filled').read number' address := by
  have hnumbers : ∀ {store : RomStore} {filled : List (Nat × List Word)},
      fill words 0 store.byName = ⟨filled, none⟩ → (filled.map Prod.fst).Nodup := by
    intro store filled hfill
    have hfst := fill_numbers (congrArg Filling.fault hfill)
    rw [hfill] at hfst
    exact hfst ▸ store.numbers_nodup
  -- the block that stands at the same place in the other order has the same words
  obtain ⟨-, hfilled⟩ := fill_congr h.byName words 0
  obtain ⟨contents, hcontents, hsame⟩ := getElem?_roms_eq_some_iff.1 hblock
  obtain ⟨e', he', hblocks, taken, htaken, htaken'⟩ :=
    forall₂_mem_left (hfilled (congrArg Filling.fault hfill)) hcontents
  rw [hfill] at htaken
  rw [hfill'] at htaken'
  -- and it is the block in question, because names differ
  have hnumber : e'.1 = number' := by
    have he : store'.roms[e'.1]? = some block :=
      getElem?_roms_eq_some_iff.2 ⟨e'.2, he', hblocks.symm.trans hsame⟩
    have hnodup : store'.roms.Nodup := h.roms.nodup_iff.1 h.names.of_map
    exact (List.getElem?_inj (List.getElem?_eq_some_iff.1 he).1 hnodup).1 (he.trans hblock'.symm)
  rw [read_withFilled store (hnumbers hfill) htaken (List.getElem?_eq_some_iff.1 hblock).1,
    read_withFilled store' (hnumbers hfill') (hnumber ▸ htaken')
      (List.getElem?_eq_some_iff.1 hblock').1, h.defaultWord_eq]

/-- Stores that match load the same images, refuse the others for the same reason, and match after. -/
theorem Matches.load (h : store.Matches store') (image : RomImage) :
    (∃ fault, store.load image = .error fault ∧ store'.load image = .error fault) ∨
      ∃ loaded loaded', store.load image = .ok loaded ∧ store'.load image = .ok loaded' ∧
        loaded.Matches loaded' := by
  have hrefuses : store'.refusesLength image.words.length =
      store.refusesLength image.words.length := by
    rw [refusesLength, refusesLength, h.capacity_eq, h.strict_eq]
  have hfault := (fill_congr h.byName image.words 0).1
  rw [RomStore.load, RomStore.load, hrefuses]
  split
  · exact .inl ⟨_, rfl, by rw [h.capacity_eq]⟩
  · rcases hfill : fill image.words 0 store.byName with ⟨filled, fault⟩
    rcases hfill' : fill image.words 0 store'.byName with ⟨filled', fault'⟩
    rw [hfill, hfill'] at hfault
    cases hfault
    cases fault with
    | some fault => exact .inl ⟨fault, rfl, rfl⟩
    | none =>
        refine .inr ⟨store.withFilled filled, store'.withFilled filled', rfl, rfl, ?_⟩
        refine ⟨?_, ?_, h.defaultWord_eq, h.strict_eq, ?_⟩
        · rw [roms_withFilled, roms_withFilled]
          exact h.roms
        · rw [roms_withFilled]
          exact h.names
        · intro number number' block hblock hblock'
          rw [roms_withFilled] at hblock hblock'
          exact h.read_filled hfill hfill' hblock hblock'

/-- An image has the same outcome in stores that match, and whatever it is, they match after. -/
theorem Matches.call_load (h : store.Matches store') (image : RomImage) :
    (store.load image).map (fun _ => ()) = (store'.load image).map (fun _ => ()) ∧
      (store.call (.load image)).Matches (store'.call (.load image)) := by
  rcases h.load image with ⟨fault, herror, herror'⟩ | ⟨loaded, loaded', hok, hok', hloaded⟩
  · rw [call, call, answer, answer, herror, herror']
    exact ⟨rfl, h⟩
  · rw [call, call, answer, answer, hok, hok']
    exact ⟨rfl, hloaded⟩

end RomStore

end Netlist
