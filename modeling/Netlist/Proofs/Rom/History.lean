/-
Module: Netlist.Proofs.Rom.History
Layer: Proofs
Purpose: Stores in place. A store is a variable into which images and single blocks are loaded, from streams
  that may break off. Every load that is refused, whatever has been accepted before the fault, leaves the
  variable as it was; every other load fills blocks with words that they accept. What filling preserves,
  every history of loads preserves, so blocks never hold too many words or words that are too wide.
Imports: Netlist.Proofs.InPlace, Netlist.Proofs.Rom.Agreement
Main exports: Reader, RomRequest, RomStore.reply, InPlace.perform, InPlace.outcome_perform, InPlace.after,
  RomStore.Admits, RomStore.reply_eq_ok, RomStore.Fits, InPlace.after_invariant,
  Description.loads_all_or_nothing
-/
import Netlist.Proofs.InPlace
import Netlist.Proofs.Rom.Agreement

namespace Netlist

/-!
### Streams
-/

/-- A stream of bytes, which may break off. -/
structure Reader where
  bytes : List UInt8
  /-- Why the stream breaks off behind its bytes, if it does. -/
  failure : Option IoFailure := none

/-- Scans the bytes of a stream up to the end of the image. It is a fault if the stream breaks off before
    that. -/
def Scanner.drain (limit : Nat) (failure : Option IoFailure) (s : Scanner) :
    List UInt8 → Except RomError RomImage
  | [] =>
    match failure with
    | some cause => .error (.interrupted cause)
    | none => s.finish false
  | b :: rest =>
    match s.feed limit b with
    | .error fault => .error fault
    | .ok (.more s) => drain limit failure s rest
    | .ok (.over s truncated) => s.finish truncated

/-- Scans an image of at most `limit` words from a stream. -/
def Reader.scan (limit : Nat) (reader : Reader) : Except RomError RomImage :=
  Scanner.drain limit reader.failure {} reader.bytes

theorem Scanner.drain_none (limit : Nat) (s : Scanner) (bytes : List UInt8) :
    s.drain limit none bytes = s.run limit bytes := by
  induction bytes generalizing s with
  | nil => rfl
  | cons b rest ih =>
      rw [drain, run]
      cases s.feed limit b with
      | error fault => rfl
      | ok turn =>
          cases turn with
          | more s => exact ih s
          | _ => rfl

/-!
### Loading in place
-/

/-- A call that loads words into a store. -/
inductive RomRequest where
  | load (image : RomImage)
  /-- Loads an image from a stream. -/
  | read (reader : Reader)
  /-- Loads a single block. -/
  | block (name : String) (words : List Word)

/-- A call with bytes takes them from a stream that does not break off. -/
def RomCall.request : RomCall → RomRequest
  | .load image => .load image
  | .loadBytes bytes => .read { bytes }
  | .loadBlock name words => .block name words

/-- The answer of a store to a request. -/
def RomStore.reply (store : RomStore) : RomRequest → Except RomError RomStore
  | .load image => store.load image
  | .read reader => if store.isEmpty then .ok store else reader.scan store.capacity >>= store.load
  | .block name words => store.loadBlock name words

theorem RomStore.reply_request (store : RomStore) (call : RomCall) :
    store.reply call.request = store.answer call := by
  cases call with
  | load image => rfl
  | loadBytes bytes =>
      rw [RomCall.request, reply, answer, loadBytes, Reader.scan, Scanner.drain_none]
      rfl
  | loadBlock name words => rfl

namespace InPlace

/-- Works out what each block takes from an image, up to the first that takes nothing. -/
def share (words : List Word) : Nat → List (Nat × RomContents) →
    InPlace RomError RomStore (List (Nat × List Word))
  | _, [] => pure []
  | offset, (number, contents) :: rest => do
    let taken ← check (contents.accept (words.drop offset))
    let later ← share words (Word.addCount offset contents.capacity) rest
    pure ((number, taken) :: later)

/-- Stores words in a block. -/
def fillBlock (e : Nat × List Word) : InPlace RomError RomStore Unit :=
  modify (fun store => { store with blocks := RomStore.put store.blocks e.1 e.2 })

def load (image : RomImage) : InPlace RomError RomStore Unit := do
  let store ← get
  if store.refusesLength image.words.length then
    throw (.imageTooShort store.capacity image.words.length)
  else
    let filled ← share image.words 0 store.byName
    forM filled fillBlock
    modify (fun store => { store with loaded := true })

def read (reader : Reader) : InPlace RomError RomStore Unit := do
  let store ← get
  if store.isEmpty then pure ()
  else
    let image ← check (reader.scan store.capacity)
    load image

def loadBlock (name : String) (words : List Word) : InPlace RomError RomStore Unit := do
  let store ← get
  match store.find? name with
  | none => throw (.unknownBlock name)
  | some (number, contents) =>
    if store.strict && decide (words.length < contents.capacity) then
      throw (.imageTooShort contents.capacity words.length)
    else
      let taken ← check (contents.accept words)
      fillBlock (number, taken)
      modify (fun store => { store with loaded := true })

def perform : RomRequest → InPlace RomError RomStore Unit
  | .load image => load image
  | .read reader => read reader
  | .block name words => loadBlock name words

/-- What a history of requests, refused or not, leaves of a store. -/
def after (store : RomStore) (history : List RomRequest) : RomStore :=
  history.foldl (fun store request => ((perform request).outcome store).2) store

/-!
### Loads as a whole
-/

/-- The outcome of a load that gives a new store or a fault. -/
def loading (result : Except RomError RomStore) (store : RomStore) : Except RomError Unit × RomStore :=
  allOrNothing (result.map (fun loaded => ((), loaded))) store

theorem loading_eq_ok_iff {result : Except RomError RomStore} {store left : RomStore} :
    loading result store = (.ok (), left) ↔ result = .ok left := by
  rw [loading, allOrNothing_eq_ok_iff]
  cases result with
  | error fault => simp [Except.map]
  | ok loaded => simp [Except.map]

theorem loading_eq_error_iff {result : Except RomError RomStore} {store left : RomStore}
    {fault : RomError} :
    loading result store = (.error fault, left) ↔ result = .error fault ∧ left = store := by
  rw [loading, allOrNothing_eq_error_iff]
  cases result with
  | error fault => simp [Except.map]
  | ok loaded => simp [Except.map]

/-- Working out shares changes nothing and gives what filling gives. -/
theorem outcome_share (words : List Word) (offset : Nat) (order : List (Nat × RomContents))
    (store : RomStore) : (share words offset order).outcome store =
      (match RomStore.fill words offset order with
        | ⟨_, some fault⟩ => .error fault
        | ⟨filled, none⟩ => .ok filled, store) := by
  induction order generalizing offset with
  | nil => rfl
  | cons entry rest ih =>
      obtain ⟨number, contents⟩ := entry
      rw [share, RomStore.fill]
      cases haccept : contents.accept (words.drop offset) with
      | error fault => exact outcome_bind_of_error (outcome_check _ store) _
      | ok taken =>
          rw [outcome_bind_of_ok (outcome_check _ store)]
          have hlater := ih (Word.addCount offset contents.capacity)
          cases hfill : RomStore.fill words (Word.addCount offset contents.capacity) rest with
          | mk filled fault =>
              rw [hfill] at hlater
              cases fault with
              | some fault => exact outcome_bind_of_error hlater _
              | none => exact outcome_bind_of_ok hlater _

/-- Filling one block after the other changes the blocks of the store and nothing else. -/
theorem foldl_fill (filled : List (Nat × List Word)) (store : RomStore) :
    filled.foldl (fun (store : RomStore) e =>
        { store with blocks := RomStore.put store.blocks e.1 e.2 }) store =
      { store with
        blocks := filled.foldl (fun blocks e => RomStore.put blocks e.1 e.2) store.blocks } := by
  induction filled generalizing store with
  | nil => rfl
  | cons e rest ih => exact ih _

theorem outcome_load (image : RomImage) (store : RomStore) :
    (load image).outcome store = loading (store.load image) store := by
  rw [load, RomStore.load, outcome_bind_of_ok (outcome_get store)]
  by_cases hrefused : store.refusesLength image.words.length = true
  · rw [if_pos hrefused, if_pos hrefused]
    rfl
  · rw [if_neg hrefused, if_neg hrefused]
    have hshare := outcome_share image.words 0 store.byName store
    cases hfill : RomStore.fill image.words 0 store.byName with
    | mk filled fault =>
        rw [hfill] at hshare
        cases fault with
        | some fault => exact outcome_bind_of_error hshare _
        | none =>
            rw [outcome_bind_of_ok hshare]
            unfold fillBlock
            rw [outcome_bind_of_ok (outcome_forM_modify filled _ store), outcome_modify, foldl_fill]
            rfl

theorem outcome_read (reader : Reader) (store : RomStore) :
    (read reader).outcome store = loading (store.reply (.read reader)) store := by
  rw [read, RomStore.reply, outcome_bind_of_ok (outcome_get store)]
  by_cases hempty : store.isEmpty = true
  · rw [if_pos hempty, if_pos hempty]
    rfl
  · rw [if_neg hempty, if_neg hempty]
    cases hscan : reader.scan store.capacity with
    | error fault => exact outcome_bind_of_error (outcome_check _ store) _
    | ok image => exact (outcome_bind_of_ok (outcome_check _ store) _).trans (outcome_load image store)

theorem outcome_loadBlock (name : String) (words : List Word) (store : RomStore) :
    (loadBlock name words).outcome store = loading (store.loadBlock name words) store := by
  rw [loadBlock, RomStore.loadBlock, outcome_bind_of_ok (outcome_get store)]
  cases store.find? name with
  | none => rfl
  | some found =>
      obtain ⟨number, contents⟩ := found
      simp only
      split
      · rfl
      · cases haccept : contents.accept words with
        | error fault => exact outcome_bind_of_error (outcome_check _ store) _
        | ok taken => rfl

/-- A request in place has the outcome of the answer of the store: a fault leaves the store as it was. -/
theorem outcome_perform (request : RomRequest) (store : RomStore) :
    (perform request).outcome store = loading (store.reply request) store := by
  cases request with
  | load image => exact outcome_load image store
  | read reader => exact outcome_read reader store
  | block name words => exact outcome_loadBlock name words store

end InPlace

/-!
### What a load can do
-/

namespace RomStore

variable {store loaded : RomStore} {filled : List (Nat × List Word)} {request : RomRequest}

/-- Blocks of the store accept what they are filled with, each once. -/
structure Admits (store : RomStore) (filled : List (Nat × List Word)) : Prop where
  nodup : (filled.map Prod.fst).Nodup
  accepted : ∀ e ∈ filled, ∃ contents words,
    store.blocks[e.1]? = some contents ∧ contents.accept words = .ok e.2

theorem accepted_of_mem_fill {words : List Word} {offset : Nat} {order : List (Nat × RomContents)}
    {e : Nat × List Word} (h : e ∈ (fill words offset order).filled) :
    ∃ contents, (e.1, contents) ∈ order ∧ ∃ words, contents.accept words = .ok e.2 := by
  induction order generalizing offset with
  | nil => cases h
  | cons entry rest ih =>
      obtain ⟨number, contents⟩ := entry
      rw [fill] at h
      cases haccept : contents.accept (words.drop offset) with
      | error fault =>
          rw [haccept] at h
          cases h
      | ok taken =>
          rw [haccept] at h
          rcases List.mem_cons.1 h with rfl | h
          · exact ⟨contents, List.mem_cons_self, _, haccept⟩
          · obtain ⟨contents', hmem, hwords⟩ := ih h
            exact ⟨contents', List.mem_cons_of_mem _ hmem, hwords⟩

theorem load_eq_withFilled {image : RomImage} (h : store.load image = .ok loaded) :
    ∃ filled, store.Admits filled ∧ loaded = store.withFilled filled := by
  obtain ⟨filled, hfill, rfl⟩ := load_eq_ok h
  refine ⟨filled, ⟨?_, ?_⟩, rfl⟩
  · have hnone : (fill image.words 0 store.byName).fault = none := by
      rw [hfill]
    have hnumbers := fill_numbers hnone
    rw [hfill] at hnumbers
    exact hnumbers ▸ store.numbers_nodup
  · intro e he
    have hmem : e ∈ (fill image.words 0 store.byName).filled := by
      rw [hfill]
      exact he
    obtain ⟨contents, hcontents, words, haccept⟩ := accepted_of_mem_fill hmem
    exact ⟨contents, words, mem_byName_iff.1 hcontents, haccept⟩

theorem find?_eq_some {name : String} {number : Nat} {contents : RomContents}
    (h : store.find? name = some (number, contents)) :
    store.blocks[number]? = some contents ∧ contents.block.name = name := by
  rw [find?] at h
  cases hidx : store.blocks.findIdx? (fun c => c.block.name == name) with
  | none =>
      rw [hidx] at h
      cases h
  | some index =>
      rw [hidx] at h
      obtain ⟨contents', hget, heq⟩ := Option.map_eq_some_iff.1 h
      obtain ⟨rfl, rfl⟩ := Prod.mk.inj heq
      obtain ⟨hlt, hname, -⟩ := Array.findIdx?_eq_some_iff_getElem.1 hidx
      obtain ⟨_, rfl⟩ := Array.getElem?_eq_some_iff.1 hget
      exact ⟨hget, by simpa using hname⟩

/-- A single block is filled with the words that it takes from the front. -/
theorem loadBlock_eq_ok {name : String} {words : List Word}
    (h : store.loadBlock name words = .ok loaded) : ∃ number contents,
      store.blocks[number]? = some contents ∧ contents.block.name = name ∧
      contents.accept words = .ok (words.take contents.capacity) ∧
      loaded = store.withFilled [(number, words.take contents.capacity)] := by
  rw [loadBlock] at h
  cases hfind : store.find? name with
  | none =>
      rw [hfind] at h
      cases h
  | some found =>
      obtain ⟨number, contents⟩ := found
      obtain ⟨hget, hname⟩ := find?_eq_some hfind
      rw [hfind] at h
      simp only at h
      split at h
      · cases h
      · obtain ⟨taken, haccept, h⟩ := bind_eq_ok_iff.1 h
        cases h
        obtain ⟨rfl, -⟩ := RomContents.accept_eq_ok_iff.1 haccept
        exact ⟨number, contents, hget, hname, haccept, rfl⟩

/-- A request that is not refused fills blocks with words that they accept, or there are no blocks and
    nothing happens. -/
theorem reply_eq_ok (h : store.reply request = .ok loaded) :
    loaded = store ∨ ∃ filled, store.Admits filled ∧ loaded = store.withFilled filled := by
  cases request with
  | load image => exact .inr (load_eq_withFilled h)
  | read reader =>
      rw [reply] at h
      split at h
      · cases h
        exact .inl rfl
      · obtain ⟨image, -, hload⟩ := bind_eq_ok_iff.1 h
        exact .inr (load_eq_withFilled hload)
  | block name words =>
      obtain ⟨number, contents, hget, -, haccept, rfl⟩ := loadBlock_eq_ok h
      refine .inr ⟨[(number, words.take contents.capacity)], ⟨List.nodup_singleton number, ?_⟩, rfl⟩
      intro e he
      cases List.mem_singleton.1 he
      exact ⟨contents, words, hget, haccept⟩

end RomStore

/-!
### Blocks within their bounds
-/

/-- A block holds no more words than it has addresses, all of its width. -/
structure RomContents.Fits (contents : RomContents) : Prop where
  size_le : contents.words.size ≤ 2 ^ contents.block.addrWidth
  word_lt : ∀ word ∈ contents.words, word.toNat < 2 ^ contents.block.wordWidth

/-- What a block accepts is within its bounds. -/
theorem RomContents.fits_of_accept {contents : RomContents} {words taken : List Word}
    (h : contents.accept words = .ok taken) :
    RomContents.Fits { contents with words := taken.toArray } := by
  obtain ⟨rfl, hfits⟩ := accept_eq_ok_iff.1 h
  constructor
  · have hcapacity : contents.capacity ≤ 2 ^ contents.block.addrWidth := by
      rw [capacity, Word.addressSpace_eq]
      exact Nat.min_le_right _ _
    rw [List.size_toArray, List.length_take]
    exact (Nat.min_le_left _ _).trans hcapacity
  · intro word hword
    exact hfits word (List.mem_toArray.1 hword)

namespace RomStore

variable {store : RomStore} {filled : List (Nat × List Word)} {number : Nat}

/-- Every block of the store is within its bounds. -/
def Fits (store : RomStore) : Prop :=
  ∀ (number : Nat) (contents : RomContents), store.blocks[number]? = some contents → contents.Fits

theorem fits_ofCircuit (c : Circuit) (config : Config) : (ofCircuit c config).Fits := by
  intro number contents hget
  have hmem := Array.mem_of_getElem? hget
  obtain ⟨block, -, rfl⟩ : ∃ block ∈ c.roms, { block } = contents := by
    simpa [ofCircuit] using hmem
  exact ⟨Nat.zero_le _, fun word hword => by simp at hword⟩

/-- Filling blocks with what they accept keeps them within their bounds. -/
theorem Fits.withFilled (h : store.Fits) (hfilled : store.Admits filled) :
    (store.withFilled filled).Fits := by
  intro number contents hget
  rw [RomStore.withFilled] at hget
  by_cases hmem : number ∈ filled.map Prod.fst
  · obtain ⟨⟨_, taken⟩, he, rfl⟩ := List.mem_map.1 hmem
    obtain ⟨before, words, hbefore, haccept⟩ := hfilled.accepted _ he
    rw [getElem?_foldl_put_of_mem hfilled.nodup he, hbefore] at hget
    cases hget
    exact RomContents.fits_of_accept haccept
  · rw [getElem?_foldl_put_of_notMem hmem] at hget
    exact h number contents hget

/-- Blocks that are not filled read what they read before. -/
theorem read_withFilled_of_notMem (h : number ∉ filled.map Prod.fst) (address : Word) :
    (store.withFilled filled).read number address = store.read number address := by
  rw [withFilled, read, getElem?_foldl_put_of_notMem h]
  rfl

end RomStore

/-!
### Histories
-/

namespace InPlace

variable {store left : RomStore} {request : RomRequest} {fault : RomError}

/-- A request that is refused leaves the store as it was. -/
theorem perform_refused (h : (perform request).outcome store = (.error fault, left)) :
    left = store := by
  rw [outcome_perform, loading_eq_error_iff] at h
  exact h.2

/-- A request leaves the store as it was or fills blocks with words that they accept. -/
theorem perform_cases (request : RomRequest) (store : RomStore) :
    ((perform request).outcome store).2 = store ∨ ∃ filled, store.Admits filled ∧
      ((perform request).outcome store).2 = store.withFilled filled := by
  rw [outcome_perform]
  cases hreply : store.reply request with
  | error fault => exact .inl rfl
  | ok loaded => exact RomStore.reply_eq_ok hreply

/-- What filling preserves, every history of requests preserves. -/
theorem after_invariant {P : RomStore → Prop}
    (hfill : ∀ store filled, P store → store.Admits filled → P (store.withFilled filled))
    (history : List RomRequest) (h : P store) : P (after store history) := by
  induction history generalizing store with
  | nil => exact h
  | cons request rest ih =>
      have hnext : P ((perform request).outcome store).2 := by
        rcases perform_cases request store with hsame | ⟨filled, hadmits, hfilled⟩
        · rw [hsame]
          exact h
        · rw [hfilled]
          exact hfill store filled h hadmits
      exact ih hnext

/-- A history of calls in place leaves what the calls leave. -/
theorem after_requests (store : RomStore) (history : List RomCall) :
    after store (history.map RomCall.request) = store.calls history := by
  induction history generalizing store with
  | nil => rfl
  | cons call rest ih =>
      have hcall : ((perform call.request).outcome store).2 = store.call call := by
        rw [outcome_perform, store.reply_request call, RomStore.call]
        cases store.answer call with
        | error fault => rfl
        | ok loaded => rfl
      rw [List.map_cons, after, List.foldl_cons, hcall]
      exact ih (store.call call)

theorem after_alike (store : RomStore) (history : List RomRequest) : (after store history).Alike store :=
  after_invariant (P := fun after => after.Alike store)
    (fun _ filled h _ => ⟨(RomStore.roms_withFilled _ filled).trans h.roms_eq, h.defaultWord_eq, h.strict_eq⟩)
    history ⟨rfl, rfl, rfl⟩

/-- A block that has been loaded reads the words that it was given, and no other block changes. -/
theorem read_loadBlock {name : String} {words : List Word}
    (hnames : (store.roms.map RomBlock.name).Nodup) (hlength : words.length ≤ Word.countLimit)
    (h : (loadBlock name words).outcome store = (.ok (), left)) :
    name ∈ store.roms.map RomBlock.name ∧ ∀ number (address : Word),
      (∀ block, store.roms[number]? = some block → block.name = name →
        left.read number address =
          ((words.take (2 ^ block.addrWidth))[address.toNat]?).getD store.defaultWord) ∧
      ((∀ block, store.roms[number]? = some block → block.name ≠ name) →
        left.read number address = store.read number address) := by
  rw [outcome_loadBlock, loading_eq_ok_iff] at h
  obtain ⟨filledNumber, contents, hget, hname, -, rfl⟩ := RomStore.loadBlock_eq_ok h
  have hblock : store.roms[filledNumber]? = some contents.block := by
    rw [RomStore.roms, List.getElem?_map, Array.getElem?_toList, hget]
    rfl
  have hlt := (List.getElem?_eq_some_iff.1 hblock).1
  refine ⟨List.mem_map.2 ⟨_, List.mem_of_getElem? hblock, hname⟩, ?_⟩
  intro number address
  constructor
  · intro block hnumber hsame
    -- names differ, so this is the block that has been filled
    obtain rfl : number = filledNumber := by
      have hnumber' := (List.getElem?_eq_some_iff.1 hnumber).1
      refine (List.getElem?_inj (by simpa using hnumber') hnames).1 ?_
      rw [List.getElem?_map, List.getElem?_map, hnumber, hblock, Option.map_some, Option.map_some, hsame,
        hname]
    rw [hblock] at hnumber
    cases hnumber
    have hwords := RomStore.take_capacity hlength contents number 0
    rw [Nat.min_zero, List.drop_zero, RomStore.Share.words, List.drop_zero] at hwords
    have hnodup : ([(number, words.take contents.capacity)].map Prod.fst).Nodup :=
      List.nodup_singleton number
    rw [RomStore.read_withFilled store hnodup List.mem_cons_self hlt, hwords]
  · intro hother
    refine RomStore.read_withFilled_of_notMem ?_ address
    intro hmem
    cases List.mem_singleton.1 hmem
    exact hother _ hblock hname

end InPlace

namespace Description

/-- Loading is all or nothing, over every history. Whatever has been loaded into a store of a compiled
    description, with success or without, loading in place does what the calls of the store do, and a
    request that is refused leaves the store as it was; a block that is loaded by name reads its words as
    far as it has addresses and the default word elsewhere, and all other blocks read what they read before;
    every block holds at most as many words as it has addresses, all of its width; and a store that has been
    loaded stays loaded. -/
theorem loads_all_or_nothing {d : Description} {config : Config} {c : Circuit}
    (h : d.compile config = .ok c) (settings : Config) (history : List RomRequest) :
    let store := InPlace.after (RomStore.ofCircuit c settings) history
    (∀ calls, InPlace.after store (calls.map RomCall.request) = store.calls calls) ∧
    (∀ request fault left, (InPlace.perform request).outcome store = (.error fault, left) →
      left = store) ∧
    (∀ name words left, words.length ≤ Word.countLimit →
      (InPlace.perform (.block name words)).outcome store = (.ok (), left) →
      name ∈ c.roms.map RomBlock.name ∧ ∀ number (address : Word),
        (∀ block, c.roms[number]? = some block → block.name = name →
          (∀ word, words[address.toNat]? = some word → address.toNat < 2 ^ block.addrWidth →
            left.read number address = word) ∧
          (min words.length (2 ^ block.addrWidth) ≤ address.toNat →
            left.read number address = settings.defaultWord)) ∧
        ((∀ block, c.roms[number]? = some block → block.name ≠ name) →
          left.read number address = store.read number address)) ∧
    (∀ (number : Nat) (contents : RomContents), store.blocks[number]? = some contents →
      c.roms[number]? = some contents.block ∧
      contents.words.size ≤ 2 ^ contents.block.addrWidth ∧
      ∀ word ∈ contents.words, word.toNat < 2 ^ contents.block.wordWidth) ∧
    (store.loaded = true → ∀ later, (InPlace.after store later).loaded = true) := by
  obtain ⟨inputs, outputs, parts, schedule, hchecked, -, rfl⟩ := compile_eq_ok_iff.1 h
  intro store
  have halike := InPlace.after_alike
    (RomStore.ofCircuit (d.circuit inputs outputs parts schedule) settings) history
  have hroms : store.roms = (d.circuit inputs outputs parts schedule).roms :=
    halike.roms_eq.trans (RomStore.roms_ofCircuit _ _)
  have hnames : (store.roms.map RomBlock.name).Nodup := hroms ▸ hchecked.romNames_nodup
  have hfits : store.Fits := InPlace.after_invariant (fun _ _ hfits hadmits => hfits.withFilled hadmits)
    history (RomStore.fits_ofCircuit _ settings)
  rw [← hroms]
  refine ⟨InPlace.after_requests store, fun _ _ _ hrefused => InPlace.perform_refused hrefused,
    ?_, ?_, ?_⟩
  · intro name words left hlength hload
    obtain ⟨hmem, hreads⟩ := InPlace.read_loadBlock hnames hlength hload
    refine ⟨hmem, fun number address => ⟨fun block hblock hname => ?_, (hreads number address).2⟩⟩
    rw [(hreads number address).1 block hblock hname, List.getElem?_take]
    constructor
    · intro word hword hlt
      rw [if_pos hlt, hword]
      rfl
    · intro hle
      have hnone : (if address.toNat < 2 ^ block.addrWidth then words[address.toNat]? else none) = none := by
        split
        · exact List.getElem?_eq_none (by omega)
        · rfl
      rw [hnone]
      exact halike.defaultWord_eq
  · intro number contents hget
    refine ⟨?_, (hfits number contents hget).size_le, (hfits number contents hget).word_lt⟩
    rw [RomStore.roms, List.getElem?_map, Array.getElem?_toList, hget]
    rfl
  · intro hloaded later
    exact InPlace.after_invariant (P := fun store => store.loaded = true) (fun _ _ _ _ => rfl) later hloaded

/-- A load, a refused one and a stream that breaks off. -/
def tablesHistory : List RomRequest :=
  [.load ⟨[3, 3, 6, 6], false⟩, .block "three" [1], .read ⟨Text.Utf8.encode "1 2", some .notFound⟩]

/-- After this history of the tables an image that the first block accepts and the second refuses changes
    nothing. Then the second block is loaded by name, with fewer words than before, and the first one keeps
    its words. -/
theorem loads_all_or_nothing_tables : ∃ c, tables.compile .standard = .ok c ∧
    let store := InPlace.after (RomStore.ofCircuit c .standard) tablesHistory
    (∃ fault, (InPlace.perform (.load ⟨[1, 1, 9], false⟩)).outcome store = (.error fault, store)) ∧
    ∃ left, (InPlace.perform (.block "two" [5])).outcome store = (.ok (), left) ∧
      left.read 0 0 = 5 ∧ left.read 0 1 = 0 ∧ ∀ address, left.read 1 address = store.read 1 address := by
  obtain ⟨c, hc⟩ := exists_eq_ok_of_isOk (x := tables.compile .standard) (by decide +kernel)
  have hcompiled : (match tables.compile .standard with
      | .ok c =>
        let store := InPlace.after (RomStore.ofCircuit c .standard) tablesHistory
        decide (c.roms = [⟨"two", 1, 3⟩, ⟨"one", 1, 2⟩]) &&
          !((InPlace.perform (.load ⟨[1, 1, 9], false⟩)).outcome store).1.isOk &&
          ((InPlace.perform (.block "two" [5])).outcome store).1.isOk
      | .error _ => false) = true := by
    decide +kernel
  rw [hc] at hcompiled
  simp only [Bool.and_eq_true, decide_eq_true_iff, Bool.not_eq_true'] at hcompiled
  obtain ⟨⟨hroms, hrefused⟩, hloaded⟩ := hcompiled
  obtain ⟨-, hatomic, hblock, -, -⟩ := loads_all_or_nothing hc .standard tablesHistory
  refine ⟨c, hc, ?_, ?_⟩
  · cases hload : (InPlace.perform (.load ⟨[1, 1, 9], false⟩)).outcome
        (InPlace.after (RomStore.ofCircuit c .standard) tablesHistory) with
    | mk result left =>
        cases result with
        | ok _ => simp [hload, Except.isOk, Except.toBool] at hrefused
        | error fault =>
            obtain rfl := hatomic _ _ _ hload
            exact ⟨fault, rfl⟩
  · obtain ⟨left, hleft⟩ : ∃ left, (InPlace.perform (.block "two" [5])).outcome
        (InPlace.after (RomStore.ofCircuit c .standard) tablesHistory) = (.ok (), left) := by
      obtain ⟨_, hok⟩ := exists_eq_ok_of_isOk hloaded
      exact ⟨_, Prod.ext hok rfl⟩
    obtain ⟨-, hreads⟩ := hblock "two" [5] left (by decide) hleft
    rw [hroms] at hreads
    refine ⟨left, hleft, ?_, ?_, ?_⟩
    · exact ((hreads 0 0).1 _ rfl rfl).1 5 rfl (by decide)
    · exact ((hreads 0 1).1 _ rfl rfl).2 (by decide)
    · intro address
      refine (hreads 1 address).2 ?_
      intro block hone
      cases hone
      decide

end Description

end Netlist
