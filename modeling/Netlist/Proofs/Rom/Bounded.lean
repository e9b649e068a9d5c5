/-
Module: Netlist.Proofs.Rom.Bounded
Layer: Proofs
Purpose: Bounded loading. A store reads no more words of an image than its blocks can hold, and an image
  that is loaded fills no block from words behind these. So loading a text within the bound does what
  loading the whole image does, with the same events, whenever the whole image can be read; where it cannot,
  the place of the first bad token decides.
Imports: Netlist.Log.Journal, Netlist.Proofs.Rom.Layout, Netlist.Proofs.Rom.Scanning
Main exports: RomImage.FirstBad, RomStore.fill_take, RomStore.load_take, RomStore.loadEvents_take,
  RomStore.loadBytes_agrees_with_load
-/
import Netlist.Log.Journal
import Netlist.Proofs.Rom.Layout
import Netlist.Proofs.Rom.Scanning

namespace Netlist

/-!
### Reading a number of words
-/

namespace RomImage

variable {bytes : List UInt8} {limit k : Nat} {image : RomImage} {token : ImageToken} {fault : RomError}

/-- The first token of an image that is no word. -/
structure FirstBad (bytes : List UInt8) (k : Nat) (token : ImageToken) (fault : RomError) : Prop where
  /-- Its place among the tokens. -/
  place : (tokens bytes)[k]? = some token
  bad : token.word = .error fault
  /-- The tokens in front of it are words. -/
  good : ∃ words, List.Forall₂ (fun token word => token.word = .ok word) ((tokens bytes).take k) words

/-- An image is read when its first tokens are words. -/
theorem scan_eq_ok_iff : scan limit bytes = .ok image ↔
    List.Forall₂ (fun token word => token.word = .ok word) ((tokens bytes).take limit) image.words ∧
      image.truncated = decide (limit < (tokens bytes).length) := by
  rw [scan_eq_gather, gather, bind_eq_ok_iff]
  simp only [mapM_eq_ok_iff, List.length_nil, Nat.sub_zero, List.nil_append]
  constructor
  · intro h
    rcases h with ⟨words, hwords, heq⟩
    cases heq
    exact ⟨hwords, rfl⟩
  · intro h
    rcases h with ⟨hwords, htruncated⟩
    refine ⟨image.words, hwords, ?_⟩
    rw [← htruncated]

/-- An image is not read when the first bad token is among those that are looked at. -/
theorem scan_eq_error_iff : scan limit bytes = .error fault ↔
    ∃ k token, k < limit ∧ FirstBad bytes k token fault := by
  have hscan : scan limit bytes = .error fault ↔
      ((tokens bytes).take limit).mapM ImageToken.word = .error fault := by
    rw [scan_eq_gather, gather, bind_eq_error_iff]
    constructor
    · intro h
      rcases h with hbad | ⟨words, -, heq⟩
      · exact hbad
      · cases heq
    · exact .inl
  rw [hscan, mapM_eq_error_iff]
  constructor
  · intro h
    rcases h with ⟨k, token, hplace, hbad, hgood⟩
    have hk : k < limit := by
      by_contra hlimit
      rw [List.getElem?_take_eq_none (Nat.not_lt.1 hlimit)] at hplace
      cases hplace
    rw [List.getElem?_take_of_lt hk] at hplace
    rw [List.take_take, Nat.min_eq_left hk.le] at hgood
    exact ⟨k, token, hk, hplace, hbad, hgood⟩
  · intro h
    rcases h with ⟨k, token, hk, hplace, hbad, hgood⟩
    refine ⟨k, token, ?_, hbad, ?_⟩
    · rw [List.getElem?_take_of_lt hk]
      exact hplace
    · rw [List.take_take, Nat.min_eq_left hk.le]
      exact hgood

end RomImage

namespace RomStore

variable {store : RomStore} {words : List Word}

/-!
### Words that no block takes
-/

/-- Blocks take nothing from words behind their shares. -/
theorem fill_take {order : List (Nat × RomContents)} (start : Nat) {n : Nat}
    (hlength : words.length ≤ Word.countLimit)
    (hspace : start + (order.map (fun e => 2 ^ e.2.block.addrWidth)).sum ≤ n) :
    fill (words.take n) (min Word.countLimit start) order = fill words (min Word.countLimit start) order := by
  induction order generalizing start with
  | nil => rfl
  | cons entry rest ih =>
      obtain ⟨number, contents⟩ := entry
      rw [List.map_cons, List.sum_cons] at hspace
      have hshare : ((words.take n).drop (min Word.countLimit start)).take contents.capacity =
          (words.drop (min Word.countLimit start)).take contents.capacity := by
        have hshorter : (words.take n).length ≤ Word.countLimit :=
          (List.length_take_le' n words).trans hlength
        rw [take_capacity hlength contents number, take_capacity hshorter contents number, Share.words,
          Share.words, List.drop_take, List.take_take]
        congr 1
        simp only at hspace ⊢
        omega
      have haccept : contents.accept ((words.take n).drop (min Word.countLimit start)) =
          contents.accept (words.drop (min Word.countLimit start)) := by
        unfold RomContents.accept
        rw [hshare]
      unfold fill
      rw [haccept, addCount_capacity, ih _ (by simp only at hspace; omega)]

/-- All blocks together take no more words than they have addresses. -/
theorem fill_take_capacity (store : RomStore) (hlength : words.length ≤ Word.countLimit) :
    fill (words.take store.capacity) 0 store.byName = fill words 0 store.byName := by
  have haddresses : (store.byName.map (fun e => 2 ^ e.2.block.addrWidth)).sum =
      (store.roms.map (fun block => 2 ^ block.addrWidth)).sum := by
    have hperm := (store.blocks_perm.map (fun block => 2 ^ block.addrWidth)).sum_nat
    rwa [List.map_map] at hperm
  rcases Nat.le_total Word.countLimit (store.roms.map (fun block => 2 ^ block.addrWidth)).sum with h | h
  · -- the capacity has stopped at the largest count, where no image has words left
    rw [capacity_eq, Nat.min_eq_left h, List.take_of_length_le hlength]
  · rw [capacity_eq, Nat.min_eq_right h]
    apply fill_take 0 hlength
    omega

theorem refusesLength_take (store : RomStore) (words : List Word) :
    store.refusesLength (words.take store.capacity).length = store.refusesLength words.length := by
  unfold refusesLength
  rw [List.length_take]
  congr 1
  apply decide_eq_decide.2
  omega

/-- Words behind the capacity make no difference to a store. -/
theorem load_take (store : RomStore) (hlength : words.length ≤ Word.countLimit)
    (truncated truncated' : Bool) :
    store.load ⟨words.take store.capacity, truncated⟩ = store.load ⟨words, truncated'⟩ := by
  unfold load
  simp only
  rw [refusesLength_take, fill_take_capacity store hlength]
  by_cases hrefused : store.refusesLength words.length = true
  · -- an image that is too short has no words behind the capacity
    have hshort := (refusesLength_iff.1 hrefused).2
    rw [if_pos hrefused, if_pos hrefused, List.take_of_length_le hshort.le]
  · rw [if_neg hrefused, if_neg hrefused]

/-- Nor do they make one to the events, if the image is marked for them. -/
theorem loadEvents_take (store : RomStore) (hlength : words.length ≤ Word.countLimit)
    {truncated truncated' : Bool}
    (hmark : truncated = true ↔ store.capacity < words.length ∨ truncated' = true) :
    store.loadEvents ⟨words.take store.capacity, truncated⟩ = store.loadEvents ⟨words, truncated'⟩ := by
  rcases Nat.le_total words.length store.capacity with h | h
  · have hsame : truncated = truncated' := by
      rw [Bool.eq_iff_iff, hmark]
      simp [Nat.not_lt.2 h]
    rw [hsame, List.take_of_length_le h]
  · have hfull : (words.take store.capacity).length = store.capacity := List.length_take_of_le h
    unfold loadEvents
    simp only
    rw [refusesLength_take, fill_take_capacity store hlength, hfull]
    simp only [Nat.lt_irrefl, false_or, hmark, Nat.not_lt.2 h, if_false, Nat.min_self, Nat.min_eq_right h]

/-- The warning about surplus words comes exactly with an image that is loaded and has some. -/
theorem imageLong_mem_loadEvents_iff {image : RomImage} :
    .imageLong store.capacity ∈ store.loadEvents image ↔
      (∃ loaded, store.load image = .ok loaded) ∧
        (store.capacity < image.words.length ∨ image.truncated = true) := by
  unfold loadEvents load
  simp only
  by_cases hrefused : store.refusesLength image.words.length = true
  · simp [hrefused]
  cases hfill : fill image.words 0 store.byName with
  | mk filled fault =>
      cases fault with
      | some fault => simp [hrefused, filledEvent]
      | none => simp [hrefused, filledEvent]

/-!
### Loading a text
-/

variable {bytes : List UInt8}

/-- A text is loaded as the image of its first words. -/
theorem loadBytes_of_ok (hblocks : store.isEmpty = false) {image : RomImage}
    (hscan : RomImage.scan store.capacity bytes = .ok image) :
    store.loadBytes bytes = store.load image ∧ store.loadBytesEvents bytes = store.loadEvents image := by
  constructor
  · simp [loadBytes, hblocks, hscan, bind, Except.bind]
  · simp [loadBytesEvents, hblocks, hscan]

theorem loadBytes_of_error (hblocks : store.isEmpty = false) {fault : RomError}
    (hscan : RomImage.scan store.capacity bytes = .error fault) :
    store.loadBytes bytes = .error fault ∧ store.loadBytesEvents bytes = [] := by
  constructor
  · simp [loadBytes, hblocks, hscan, bind, Except.bind]
  · simp [loadBytesEvents, hblocks, hscan]

/-- What a call leaves of a store is up to the answer. -/
theorem call_eq_of_answer_eq {request request' : RomCall} (h : store.answer request = store.answer request') :
    store.call request = store.call request' := by
  unfold call
  rw [h]

theorem capacity_le_countLimit (store : RomStore) : store.capacity ≤ Word.countLimit := by
  rw [capacity_eq]
  exact Nat.min_le_left _ _

/-- A whole image that can be read can be read within the bound, and gives the first of its words. -/
theorem scan_capacity_of_read {image : RomImage} (hread : RomImage.read bytes = .ok image) :
    RomImage.scan store.capacity bytes =
      .ok ⟨image.words.take store.capacity, decide (store.capacity < (RomImage.tokens bytes).length)⟩ := by
  rcases RomImage.scan_eq_ok_iff.1 hread with ⟨hwords, -⟩
  apply RomImage.scan_eq_ok_iff.2
  refine ⟨?_, rfl⟩
  have hfirst := List.forall₂_take store.capacity hwords
  rwa [List.take_take, Nat.min_eq_left store.capacity_le_countLimit] at hfirst

/-- Loading a text within the bound of the blocks, in any store that has some. When the whole image can be
    read, the answer, the store and the events are those of loading the whole image; the warning about
    surplus words comes exactly when the load is accepted and the text has more words than the blocks can
    hold. When it cannot be read, the first bad token decides: within the bound it is reported and nothing
    changes, and behind it the words of the bound are loaded as a truncated image. -/
theorem loadBytes_agrees_with_load (store : RomStore) (hblocks : store.isEmpty = false)
    (bytes : List UInt8) :
    (∀ image, RomImage.read bytes = .ok image →
      store.loadBytes bytes = store.load image ∧
      store.call (.loadBytes bytes) = store.call (.load image) ∧
      store.loadBytesEvents bytes = store.loadEvents image ∧
      image.words.length = min Word.countLimit (RomImage.tokens bytes).length ∧
      (.imageLong store.capacity ∈ store.loadBytesEvents bytes ↔
        (∃ loaded, store.load image = .ok loaded) ∧
          store.capacity < (RomImage.tokens bytes).length)) ∧
    (∀ fault, RomImage.read bytes = .error fault →
      ∃ k token, RomImage.FirstBad bytes k token fault) ∧
    (∀ k token fault, RomImage.FirstBad bytes k token fault → k < store.capacity →
      RomImage.read bytes = .error fault ∧
      store.loadBytes bytes = .error fault ∧
      store.call (.loadBytes bytes) = store ∧
      store.loadBytesEvents bytes = []) ∧
    (∀ k token fault, RomImage.FirstBad bytes k token fault → store.capacity ≤ k →
      ∃ words, List.Forall₂ (fun token word => token.word = .ok word)
          ((RomImage.tokens bytes).take store.capacity) words ∧
        words.length = store.capacity ∧
        store.loadBytes bytes = store.load ⟨words, true⟩ ∧
        store.call (.loadBytes bytes) = store.call (.load ⟨words, true⟩) ∧
        store.loadBytesEvents bytes = store.loadEvents ⟨words, true⟩) := by
  refine ⟨?_, ?_, ?_, ?_⟩
  · intro image hread
    rcases RomImage.scan_eq_ok_iff.1 hread with ⟨hwords, htruncated⟩
    have hcount : image.words.length = min Word.countLimit (RomImage.tokens bytes).length := by
      rw [← hwords.length_eq, List.length_take]
    have hlength : image.words.length ≤ Word.countLimit := by
      rw [hcount]
      exact Nat.min_le_left _ _
    have hcapacity := store.capacity_le_countLimit
    have hsurplus : store.capacity < (RomImage.tokens bytes).length ↔
        store.capacity < image.words.length ∨ image.truncated = true := by
      rw [hcount, htruncated, decide_eq_true_iff]
      omega
    rcases loadBytes_of_ok hblocks (scan_capacity_of_read hread) with ⟨hload, hevents⟩
    rw [load_take store hlength _ image.truncated] at hload
    rw [loadEvents_take store hlength (decide_eq_true_iff.trans hsurplus)] at hevents
    refine ⟨hload, call_eq_of_answer_eq hload, hevents, hcount, ?_⟩
    rw [hevents, hsurplus]
    exact imageLong_mem_loadEvents_iff
  · intro fault hread
    rcases RomImage.scan_eq_error_iff.1 hread with ⟨k, token, -, hbad⟩
    exact ⟨k, token, hbad⟩
  · intro k token fault hbad hk
    have hread : RomImage.read bytes = .error fault :=
      RomImage.scan_eq_error_iff.2 ⟨k, token, hk.trans_le store.capacity_le_countLimit, hbad⟩
    rcases loadBytes_of_error hblocks (RomImage.scan_eq_error_iff.2 ⟨k, token, hk, hbad⟩)
      with ⟨hload, hevents⟩
    refine ⟨hread, hload, ?_, hevents⟩
    have hanswer : store.answer (.loadBytes bytes) = .error fault := hload
    unfold call
    rw [hanswer]
  · intro k token fault hbad hk
    rcases hbad.good with ⟨before, hbefore⟩
    have hmore : k < (RomImage.tokens bytes).length := (List.getElem?_eq_some_iff.1 hbad.place).1
    have hwords := List.forall₂_take store.capacity hbefore
    rw [List.take_take, Nat.min_eq_left hk] at hwords
    have hlength := hwords.length_eq
    rw [List.length_take_of_le (hk.trans hmore.le)] at hlength
    have hscan : RomImage.scan store.capacity bytes = .ok ⟨before.take store.capacity, true⟩ :=
      RomImage.scan_eq_ok_iff.2 ⟨hwords, (decide_eq_true (hk.trans_lt hmore)).symm⟩
    rcases loadBytes_of_ok hblocks hscan with ⟨hload, hevents⟩
    exact ⟨before.take store.capacity, hwords, hlength.symm, hload, call_eq_of_answer_eq hload, hevents⟩

/-- A store of one block of two bits. -/
def bits : RomStore where
  blocks := #[{ block := ⟨"bits", 1, 1⟩ }]
  defaultWord := 0
  strict := false

/-- The bad token comes after the two words of the bound, so the text is loaded. -/
theorem bits_load_before_bad_token :
    bits.isEmpty = false ∧
    RomImage.FirstBad (Text.Utf8.encode "1 0#!\nx") 2 ⟨2, [0x78]⟩ (.badToken 2 "x") ∧
    ∃ words, words.length = 2 ∧
      bits.loadBytes (Text.Utf8.encode "1 0#!\nx") = bits.load ⟨words, true⟩ := by
  have hblocks : bits.isEmpty = false := by decide
  have hbad : RomImage.FirstBad (Text.Utf8.encode "1 0#!\nx") 2 ⟨2, [0x78]⟩ (.badToken 2 "x") :=
    ⟨by decide +kernel, by decide +kernel, [1, 0], by decide +kernel⟩
  rcases loadBytes_agrees_with_load bits hblocks (Text.Utf8.encode "1 0#!\nx") with ⟨-, -, -, hbehind⟩
  rcases hbehind 2 _ _ hbad (by decide +kernel) with ⟨words, -, hlength, hload, -⟩
  exact ⟨hblocks, hbad, words, hlength, hload⟩

/-- An image with a word that is too wide is refused without a warning, although it has surplus words. -/
theorem bits_refuse_surplus_silently :
    bits.isEmpty = false ∧ RomImage.read (Text.Utf8.encode "f 0 0") = .ok ⟨[0xf, 0, 0], false⟩ ∧
    bits.capacity < [0xf, 0, 0].length ∧
    .imageLong bits.capacity ∉ bits.loadBytesEvents (Text.Utf8.encode "f 0 0") := by
  decide +kernel

end RomStore

end Netlist
