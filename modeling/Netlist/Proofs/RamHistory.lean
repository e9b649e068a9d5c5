/-
Module: Netlist.Proofs.RamHistory
Layer: Proofs
Purpose: Memories over time. After any sequence of writes and clears, a block reads at each address the
  last word written there since the last clear, and zero where there is none, and lists exactly the cells
  that are not zero. This holds for flat and for listed blocks alike, so the two cannot be told apart, and
  for each block by itself, so no block is changed through another.
Imports: Mathlib.Data.List.Induction, Netlist.Circuit.Compile, Netlist.Proofs.Listing,
  Netlist.Proofs.Sequence
Main exports: RamCall, RamStore.calls, CellCall, RamCall.at?, CellCall.current, Cells.read_calls,
  RamStore.getElem?_calls, RamStore.behaves_as_history
-/
import Mathlib.Data.List.Induction
import Netlist.Circuit.Compile
import Netlist.Proofs.Listing
import Netlist.Proofs.Sequence

namespace Netlist

/-- A call that changes the contents of memories. -/
inductive RamCall where
  | write (block : Nat) (address value : Word)
  /-- Clears every block. -/
  | clear
deriving Repr, DecidableEq

/-- What a call does to a single block. -/
inductive CellCall where
  | write (address value : Word)
  | clear
deriving Repr, DecidableEq

/-- What a call does to the block with the given number, if anything. -/
def RamCall.at? (block : Nat) : RamCall → Option CellCall
  | .write target address value => if target = block then some (.write address value) else none
  | .clear => some .clear

namespace CellCall

/-- The word that a call writes to an address. -/
def wrote? (address : Word) : CellCall → Option Word
  | .write target value => if target = address then some value else none
  | .clear => none

/-- The word at an address after a history of calls: the last one written there since the last clear, and
    zero if there is none. -/
def current (history : List CellCall) (address : Word) : Word :=
  ((history.reverse.takeWhile (fun call => call ≠ .clear)).findSome? (wrote? address)).getD 0

@[simp] theorem current_nil (address : Word) : current [] address = 0 :=
  rfl

/-- A write changes the word at its address. -/
theorem current_write (history : List CellCall) (target value address : Word) :
    current (history ++ [.write target value]) address =
      if address = target then value else current history address := by
  by_cases h : target = address
  · simp [current, wrote?, h]
  · simp [current, wrote?, h, Ne.symm h]

@[simp] theorem current_clear (history : List CellCall) (address : Word) :
    current (history ++ [.clear]) address = 0 := by
  simp [current]

end CellCall

/-!
### One block
-/

namespace Cells

/-- The cells of a block after a call. -/
def call (cells : Cells) : CellCall → Cells
  | .write address value => cells.write address value
  | .clear => cells.clear

/-- The cells of a block after a history of calls. -/
def calls (cells : Cells) (history : List CellCall) : Cells :=
  history.foldl call cells

theorem calls_concat (cells : Cells) (history : List CellCall) (last : CellCall) :
    cells.calls (history ++ [last]) = (cells.calls history).call last := by
  simp [calls]

/-- The addresses of a history are those of a block with the given width of addresses. -/
def InRange (addrWidth : Nat) (history : List CellCall) : Prop :=
  ∀ address value, .write address value ∈ history → address.toNat < 2 ^ addrWidth

/-- After a history of calls within its addresses, a block that started at zero is in shape and reads what
    the history says. -/
theorem read_calls {addrWidth : Nat} {history : List CellCall} (h : InRange addrWidth history) :
    ((blank addrWidth).calls history).Fits addrWidth Word.maxWidth ∧
      ∀ address, ((blank addrWidth).calls history).read address = CellCall.current history address := by
  -- the induction takes away the last call, so that the word of a write is the one that counts
  induction history using List.reverseRecOn with
  | nil => exact ⟨fits_blank addrWidth Word.maxWidth, read_blank addrWidth⟩
  | append_singleton history last ih =>
      have hbefore : InRange addrWidth history :=
        fun address value hmem => h address value (List.mem_append_left _ hmem)
      rcases ih hbefore with ⟨hfits, hread⟩
      rw [calls_concat]
      cases last with
      | write target value =>
          have htarget : target.toNat < 2 ^ addrWidth := h target value (by simp)
          refine ⟨hfits.write htarget value.toNat_lt_two_pow, ?_⟩
          intro address
          calc (((blank addrWidth).calls history).write target value).read address
              = if address = target then value
                else ((blank addrWidth).calls history).read address :=
                read_write hfits.hasRoom htarget address
            _ = CellCall.current (history ++ [.write target value]) address := by
                rw [CellCall.current_write, hread]
      | clear =>
          refine ⟨hfits.clear, ?_⟩
          intro address
          rw [CellCall.current_clear]
          exact read_clear _ address

end Cells

/-!
### All blocks
-/

namespace RamStore

/-- What a call leaves of a store. -/
def call (store : RamStore) : RamCall → RamStore
  | .write block address value => store.write block address value
  | .clear => store.clear

/-- What a sequence of calls leaves of a store. -/
def calls (store : RamStore) (history : List RamCall) : RamStore :=
  history.foldl call store

/-- A call does to the cells of a block what it does at this block, and nothing else. -/
theorem getElem?_call (store : RamStore) (request : RamCall) (b : Nat) :
    (store.call request).blocks[b]? =
      store.blocks[b]?.map (fun cells => cells.calls (request.at? b).toList) := by
  cases request with
  | write target address value =>
      by_cases h : target = b
      · simp [call, RamStore.write, RamCall.at?, Cells.calls, Cells.call, Array.getElem?_modify, h]
      · simp [call, RamStore.write, RamCall.at?, Cells.calls, Array.getElem?_modify, h]
  | clear => simp [call, RamStore.clear, RamCall.at?, Cells.calls, Cells.call]

/-- The cells of a block after a sequence of calls are those after the calls at this block. -/
theorem getElem?_calls (store : RamStore) (history : List RamCall) (b : Nat) :
    (store.calls history).blocks[b]? =
      store.blocks[b]?.map (fun cells => cells.calls (history.filterMap (RamCall.at? b))) := by
  induction history generalizing store with
  | nil => simp [calls, Cells.calls]
  | cons request rest ih =>
      have hrest := ih (store.call request)
      rw [getElem?_call, Option.map_map] at hrest
      refine hrest.trans ?_
      congr 1
      funext cells
      cases hat : request.at? b <;> simp [hat, Cells.calls]

variable {c : Circuit} {history : List RamCall} {b : Nat} {block : RamBlock}

/-- The writes of a history to a block go to addresses of the block. -/
def InRange (b : Nat) (block : RamBlock) (history : List RamCall) : Prop :=
  ∀ address value, .write b address value ∈ history → address.toNat < 2 ^ block.addrWidth

theorem InRange.cells (h : InRange b block history) :
    Cells.InRange block.addrWidth (history.filterMap (RamCall.at? b)) := by
  intro address value hmem
  rcases List.mem_filterMap.1 hmem with ⟨request, hrequest, hat⟩
  cases request with
  | clear => cases hat
  | write target address' value' =>
      by_cases htarget : target = b
      · simp only [RamCall.at?, if_pos htarget, Option.some.injEq, CellCall.write.injEq] at hat
        rcases hat with ⟨rfl, rfl⟩
        exact h _ _ (htarget ▸ hrequest)
      · simp [RamCall.at?, htarget] at hat

/-- The cells that a block has after a history that started with the cleared store. -/
theorem exists_cells_calls (hblock : c.rams[b]? = some block) (hrange : InRange b block history) :
    ∃ cells : Cells, cells.Fits block.addrWidth Word.maxWidth ∧
      (∀ address, ((ofCircuit c).calls history).read b address = cells.read address) ∧
      ((ofCircuit c).calls history).nonZero b = cells.nonZero ∧
      ∀ address, cells.read address =
        CellCall.current (history.filterMap (RamCall.at? b)) address := by
  have hcells : ((ofCircuit c).calls history).blocks[b]? =
      some ((Cells.blank block.addrWidth).calls (history.filterMap (RamCall.at? b))) := by
    rw [getElem?_calls]
    simp [ofCircuit, hblock]
  rcases Cells.read_calls hrange.cells with ⟨hfits, hread⟩
  refine ⟨_, hfits, ?_, ?_, hread⟩
  · intro address
    simp only [RamStore.read, hcells]
  · simp only [RamStore.nonZero, hcells]

/-- A write to another block leaves a block as it is. -/
theorem write_of_ne (store : RamStore) {target : Nat} (h : target ≠ b) (address value : Word) :
    (store.write target address value).read b = store.read b ∧
      (store.write target address value).nonZero b = store.nonZero b := by
  have hcells : (store.write target address value).blocks[b]? = store.blocks[b]? := by
    simp [RamStore.write, Array.getElem?_modify, h]
  refine ⟨?_, by simp only [RamStore.nonZero, hcells]⟩
  funext other
  simp only [RamStore.read, hcells]

/-- Memories behave as their histories say. After any sequence of calls on the cleared store of a circuit
    that stays within the addresses of a block, each address of the block reads the last word written there
    since the last clear, or zero; the block lists the cells that are not zero, each once and by ascending
    address; and writes to other blocks change nothing. Blocks with the same listing, of whatever sizes,
    read the same words everywhere, and blocks with the same history have the same listing. -/
theorem behaves_as_history {c : Circuit} {b : Nat} {block : RamBlock} {history : List RamCall}
    (hblock : c.rams[b]? = some block) (hrange : InRange b block history) :
    let store := (ofCircuit c).calls history
    let current := CellCall.current (history.filterMap (RamCall.at? b))
    (∀ address, store.read b address = current address) ∧
    (∀ address word, (address, word) ∈ store.nonZero b ↔ word ≠ 0 ∧ current address = word) ∧
    (store.nonZero b).Pairwise (fun e later => e.1 < later.1) ∧
    (∀ target address value, target ≠ b →
      (store.write target address value).read b = store.read b ∧
        (store.write target address value).nonZero b = store.nonZero b) ∧
    ∀ (c' : Circuit) (history' : List RamCall) (b' : Nat) (block' : RamBlock),
      c'.rams[b']? = some block' → InRange b' block' history' →
        let store' := (ofCircuit c').calls history'
        (store.nonZero b = store'.nonZero b' → ∀ address, store.read b address = store'.read b' address) ∧
        (history.filterMap (RamCall.at? b) = history'.filterMap (RamCall.at? b') →
          store.nonZero b = store'.nonZero b') := by
  intro store current
  obtain ⟨cells, hfits, hread, hlisting, hcurrent⟩ := exists_cells_calls hblock hrange
  refine ⟨fun address => (hread address).trans (hcurrent address), ?_,
    hlisting ▸ Cells.nonZero_ascending hfits,
    fun target address value hne => write_of_ne store hne address value, ?_⟩
  · intro address word
    rw [hlisting, Cells.mem_nonZero_iff hfits, hcurrent]
  · intro c' history' b' block' hblock' hrange' store'
    obtain ⟨cells', hfits', hread', hlisting', hcurrent'⟩ := exists_cells_calls hblock' hrange'
    have hiff := Cells.nonZero_eq_iff hfits hfits'
    constructor
    · intro hsame address
      rw [hread, hread']
      exact hiff.1 (hlisting.symm.trans (hsame.trans hlisting')) address
    · intro hsame
      rw [hlisting, hlisting']
      apply hiff.2
      intro address
      rw [hcurrent, hcurrent', hsame]

end RamStore

/-- Two memories with addresses of two and of seventeen bits, the first kept flat and the second as a list
    of cells. -/
def Description.shelves : Description where
  name := "shelves"
  inputs := ["near", "far", "word"]
  outputs := ["first", "second"]
  nets := [⟨"near", 2⟩, ⟨"far", 17⟩, ⟨"word", 8⟩, ⟨"first", 8⟩, ⟨"second", 8⟩]
  equations := [
    { target := "first", op := .ram,
      args := [.net "near", .const 1 none, .net "near", .net "word"], params := [2, 8] },
    { target := "second", op := .ram,
      args := [.net "far", .const 1 none, .net "far", .net "word"], params := [17, 8] }]

/-- The same calls on a block: two cells are set and cleared, then one of two others is set back to zero. -/
def RamCall.shelf (block : Nat) : List RamCall :=
  [.write block 1 5, .write block 3 9, .clear, .write block 2 7, .write block 1 4, .write block 2 0]

/-- The flat and the listed shelf have the same listing after the same calls, and read the last word that
    was written since they were cleared. -/
theorem RamStore.shelves_behave_alike : ∃ c, Description.shelves.compile .standard = .ok c ∧
    let near := (RamStore.ofCircuit c).calls (RamCall.shelf 0)
    let far := (RamStore.ofCircuit c).calls (RamCall.shelf 1)
    near.blocks[0]? ≠ far.blocks[1]? ∧ near.nonZero 0 = far.nonZero 1 ∧ near.read 0 1 = 4 ∧
      near.read 0 2 = 0 ∧ near.read 0 3 = 0 ∧ ∀ address, near.read 0 address = far.read 1 address := by
  obtain ⟨c, hc⟩ := exists_eq_ok_of_isOk (x := Description.shelves.compile .standard) (by decide +kernel)
  have hshelves : (match Description.shelves.compile .standard with
      | .ok c =>
        decide (c.rams.map RamBlock.addrWidth = [2, 17]) &&
          decide (((RamStore.ofCircuit c).calls (RamCall.shelf 0)).blocks[0]? ≠
            ((RamStore.ofCircuit c).calls (RamCall.shelf 1)).blocks[1]?)
      | .error _ => false) = true := by
    decide +kernel
  rw [hc] at hshelves
  simp only [Bool.and_eq_true, decide_eq_true_iff] at hshelves
  rcases hshelves with ⟨hwidths, hdiffer⟩
  have hblock : ∀ {b width : Nat}, [2, 17][b]? = some width →
      ∃ block, c.rams[b]? = some block ∧ block.addrWidth = width := by
    intro b width hwidth
    rw [← hwidths, List.getElem?_map, Option.map_eq_some_iff] at hwidth
    exact hwidth
  obtain ⟨near, hnear, hwidth⟩ := hblock (b := 0) rfl
  obtain ⟨far, hfar, hwidth'⟩ := hblock (b := 1) rfl
  have hrange : ∀ {b : Nat} {block : RamBlock}, 2 ≤ block.addrWidth → InRange b block (RamCall.shelf b) := by
    intro b block hle address value hmem
    have hlt : address.toNat < 2 ^ 2 := by
      simp only [RamCall.shelf, List.mem_cons, RamCall.write.injEq, List.not_mem_nil, or_false,
        reduceCtorEq, false_or, true_and] at hmem
      rcases hmem with ⟨rfl, -⟩ | ⟨rfl, -⟩ | ⟨rfl, -⟩ | ⟨rfl, -⟩ | ⟨rfl, -⟩ <;> decide
    exact lt_of_lt_of_le hlt (Nat.pow_le_pow_right (by decide) hle)
  obtain ⟨hread, -, -, -, hother⟩ := behaves_as_history hnear (hrange (by omega))
  obtain ⟨hreads, hlisting⟩ := hother c (RamCall.shelf 1) 1 far hfar (hrange (by omega))
  have hsame := hlisting (by decide)
  exact ⟨c, hc, hdiffer, hsame, (hread 1).trans (by decide), (hread 2).trans (by decide),
    (hread 3).trans (by decide), hreads hsame⟩

end Netlist
