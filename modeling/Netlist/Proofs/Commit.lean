/-
Module: Netlist.Proofs.Commit
Layer: Proofs
Purpose: Sampling and committing in any order. A sample waits until it is replaced by a later one, committed
  or dropped by a reset; changes of nets and writes to memories in between leave it alone. So what waits is
  told by the history alone: the updates that the nets asked for at the latest sample, or nothing. A commit
  applies exactly these updates to the nets and memories as it finds them. They concern different registers
  and different blocks, and for that reason their order does not matter.
Imports: Netlist.Proofs.NetTable, Netlist.Proofs.Ram, Netlist.Proofs.Settle, Netlist.Proofs.WellFormed
Main exports: Action, State.act, State.acts, Unsampled, LatestSample, State.pending_of_unsampled,
  State.pending_of_latestSample, State.Shaped, NetTable.assignAll_perm, RamStore.foldl_write_perm,
  Description.commit_applies_latest_sample
-/
import Netlist.Proofs.NetTable
import Netlist.Proofs.Ram
import Netlist.Proofs.Settle
import Netlist.Proofs.WellFormed

namespace Netlist

/-- What can happen to the state of a circuit. -/
inductive Action where
  | sample
  | commit
  /-- Puts the registers back and drops what was sampled. -/
  | reset
  /-- Gives nets any words. -/
  | change (assignments : List (NetId × Word))
  /-- Writes a word to a memory, past the circuit. -/
  | write (block : Nat) (address value : Word)
deriving Repr, DecidableEq

/-- Nothing was sampled since the last commit or reset. -/
def Unsampled (history : List Action) : Prop :=
  ∀ before after, history = before ++ .sample :: after → .commit ∈ after ∨ .reset ∈ after

/-- The latest sample came after the actions in `before`, and was neither committed nor dropped. -/
def LatestSample (history before : List Action) : Prop :=
  ∃ after, history = before ++ .sample :: after ∧
    .sample ∉ after ∧ .commit ∉ after ∧ .reset ∉ after

section History

variable {history before : List Action} {last : Action}

theorem unsampled_nil : Unsampled [] := by
  intro before after heq
  simp at heq

/-- An action of a history is the last one or comes before it. -/
theorem last_eq_or_of_concat_eq {after : List Action} {action : Action}
    (h : history ++ [last] = before ++ action :: after) :
    last = action ∨ ∃ later, history = before ++ action :: later ∧ after = later ++ [last] := by
  rcases List.eq_nil_or_concat after with rfl | ⟨later, final, rfl⟩
  · exact .inl (List.singleton_inj.1 (List.append_inj' h rfl).2)
  · rw [List.concat_eq_append, ← List.cons_append, ← List.append_assoc] at h
    rcases List.append_inj' h rfl with ⟨hhistory, hlast⟩
    exact .inr ⟨later, hhistory, by rw [List.concat_eq_append, hlast]⟩

/-- After a commit or a reset nothing is sampled; other actions but a sample leave this as it was. -/
theorem unsampled_concat_iff : Unsampled (history ++ [last]) ↔
    last ≠ .sample ∧ (last = .commit ∨ last = .reset ∨ Unsampled history) := by
  constructor
  · intro h
    constructor
    · intro hlast
      rcases h history [] (by rw [hlast]) with hmem | hmem
      · cases hmem
      · cases hmem
    · by_cases hcommit : last = .commit
      · exact .inl hcommit
      by_cases hreset : last = .reset
      · exact .inr (.inl hreset)
      refine .inr (.inr ?_)
      intro before after heq
      have hmem := h before (after ++ [last]) (by simp [heq])
      simpa [Ne.symm hcommit, Ne.symm hreset] using hmem
  · intro h before after heq
    rcases last_eq_or_of_concat_eq heq with hlast | ⟨later, hhistory, rfl⟩
    · exact absurd hlast h.1
    · rcases h.2 with rfl | rfl | hunsampled
      · simp
      · simp
      · rcases hunsampled before later hhistory with hmem | hmem
        · exact .inl (List.mem_append_left _ hmem)
        · exact .inr (List.mem_append_left _ hmem)

theorem LatestSample.concat (h : LatestSample history before) (hsample : last ≠ .sample)
    (hcommit : last ≠ .commit) (hreset : last ≠ .reset) : LatestSample (history ++ [last]) before := by
  rcases h with ⟨after, rfl, hnosample, hnocommit, hnoreset⟩
  refine ⟨after ++ [last], by simp, ?_, ?_, ?_⟩
  · simp [hnosample, hsample.symm]
  · simp [hnocommit, hcommit.symm]
  · simp [hnoreset, hreset.symm]

/-- Unless nothing is sampled, there is a latest sample. -/
theorem unsampled_or_latestSample (history : List Action) :
    Unsampled history ∨ ∃ before, LatestSample history before := by
  induction history using List.reverseRecOn with
  | nil => exact .inl unsampled_nil
  | append_singleton history last ih =>
      have hother : last ≠ .sample → last ≠ .commit → last ≠ .reset →
          Unsampled (history ++ [last]) ∨ ∃ before, LatestSample (history ++ [last]) before := by
        intro hsample hcommit hreset
        rcases ih with h | ⟨before, h⟩
        · exact .inl (unsampled_concat_iff.2 ⟨hsample, .inr (.inr h)⟩)
        · exact .inr ⟨before, h.concat hsample hcommit hreset⟩
      cases last with
      | sample => exact .inr ⟨history, [], rfl, by simp, by simp, by simp⟩
      | commit => exact .inl (unsampled_concat_iff.2 ⟨by simp, .inl rfl⟩)
      | reset => exact .inl (unsampled_concat_iff.2 ⟨by simp, .inr (.inl rfl)⟩)
      | change assignments => exact hother (by simp) (by simp) (by simp)
      | write block address value => exact hother (by simp) (by simp) (by simp)

end History

/-!
### What waits to be committed
-/

namespace State

variable {c : Circuit} {s : State} {history before : List Action}

/-- The state after an action. -/
def act (c : Circuit) (s : State) : Action → State
  | .sample => s.sample c
  | .commit => (s.commit c).1
  | .reset => s.resetRegisters c
  | .change assignments => s.drive assignments
  | .write block address value => { s with ram := s.ram.write block address value }

/-- The state after a history of actions. -/
def acts (c : Circuit) (s : State) (history : List Action) : State :=
  history.foldl (act c) s

theorem acts_append (c : Circuit) (s : State) (history later : List Action) :
    s.acts c (history ++ later) = (s.acts c history).acts c later :=
  List.foldl_append

/-- A sample waits as long as nothing is sampled, committed or reset. -/
theorem pending_acts (hsample : .sample ∉ history) (hcommit : .commit ∉ history)
    (hreset : .reset ∉ history) : (s.acts c history).pending = s.pending := by
  induction history generalizing s with
  | nil => rfl
  | cons first rest ih =>
      simp only [List.mem_cons, not_or] at hsample hcommit hreset
      have hrest : ((s.act c first).acts c rest).pending = (s.act c first).pending :=
        ih hsample.2 hcommit.2 hreset.2
      refine hrest.trans ?_
      cases first with
      | sample => exact absurd rfl hsample.1
      | commit => exact absurd rfl hcommit.1
      | reset => exact absurd rfl hreset.1
      | change assignments => rfl
      | write block address value => rfl

/-- What waits are the updates that the nets asked for at the latest sample. -/
theorem pending_of_latestSample (h : LatestSample history before) :
    (s.acts c history).pending = updates c (s.acts c before).nets := by
  rcases h with ⟨after, rfl, hsample, hcommit, hreset⟩
  rw [acts_append]
  exact pending_acts (s := (s.acts c before).sample c) hsample hcommit hreset

/-- Where nothing was sampled, nothing waits. -/
theorem pending_of_unsampled (hs : s.pending = {}) (h : Unsampled history) :
    (s.acts c history).pending = {} := by
  induction history using List.reverseRecOn with
  | nil => exact hs
  | append_singleton history last ih =>
      rcases unsampled_concat_iff.1 h with ⟨hsample, hbefore⟩
      rw [acts_append]
      cases last with
      | sample => exact absurd rfl hsample
      | commit => rfl
      | reset => rfl
      | change assignments => exact ih (by simpa using hbefore)
      | write block address value => exact ih (by simpa using hbefore)

/-!
### Nets and blocks in place
-/

/-- The net table has the size of the circuit's, and the memories have room for all addresses. What nets and
    cells hold may be wider than they are. -/
structure Shaped (c : Circuit) (s : State) : Prop where
  size_eq : s.nets.size = c.nets.size
  room : s.ram.HasRoom c.rams

theorem shaped_blank (c : Circuit) : (blank c).Shaped c where
  size_eq := Array.size_replicate
  room := (RamStore.fits_ofCircuit c).hasRoom

theorem Shaped.act (h : s.Shaped c) (action : Action) : (s.act c action).Shaped c := by
  cases action with
  | sample => exact ⟨h.size_eq, h.room⟩
  | commit =>
      refine ⟨?_, h.room.foldl_write s.pending.writes⟩
      exact (NetTable.size_assignAll (fun e : Register × Word => e.1.current) Prod.snd _ s.nets).trans
        h.size_eq
  | reset =>
      refine ⟨?_, h.room⟩
      exact (NetTable.size_assignAll Register.current Register.init _ s.nets).trans h.size_eq
  | change assignments =>
      refine ⟨?_, h.room⟩
      exact (NetTable.size_assignAll Prod.fst Prod.snd assignments s.nets).trans h.size_eq
  | write block address value => exact ⟨h.size_eq, h.room.write block address value⟩

theorem Shaped.acts (h : s.Shaped c) (history : List Action) : (s.acts c history).Shaped c := by
  induction history generalizing s with
  | nil => exact h
  | cons first rest ih => exact ih (h.act first)

end State

/-!
### The order of updates
-/

/-- A loop does not depend on the order of its entries, when entries with different keys can change places
    and no two have one key. -/
theorem foldl_perm_of_nodup {α β κ : Type} (key : α → κ) {f : β → α → β}
    (hcomm : ∀ z a b, key a ≠ key b → f (f z a) b = f (f z b) a) {entries entries' : List α}
    (hperm : entries.Perm entries') (hnodup : (entries.map key).Nodup) (init : β) :
    entries.foldl f init = entries'.foldl f init := by
  apply hperm.foldl_eq'
  intro a ha b hb z
  by_cases hkey : key a = key b
  · rw [List.inj_on_of_nodup_map hnodup ha hb hkey]
  · exact hcomm z a b hkey

theorem NetTable.assignAll_perm {α : Type} {target : α → NetId} (word : α → Word)
    {entries entries' : List α} (hperm : entries.Perm entries')
    (hnodup : (entries.map target).Nodup) (nets : NetTable) :
    NetTable.assignAll target word entries nets = NetTable.assignAll target word entries' nets := by
  apply foldl_perm_of_nodup target _ hperm hnodup
  intro nets a b hne
  apply Array.setIfInBounds_comm
  exact fun hindex => hne (NetId.index_inj.1 hindex)

/-- Writes to different blocks can change places. -/
theorem RamStore.write_comm (store : RamStore) {b b' : Nat} (h : b ≠ b')
    (address value address' value' : Word) :
    (store.write b address value).write b' address' value' =
      (store.write b' address' value').write b address value := by
  unfold RamStore.write
  congr 1
  apply Array.ext_getElem?
  intro i
  simp only [Array.getElem?_modify]
  by_cases hb : b = i
  · have hb' : b' ≠ i := fun heq => h (hb.trans heq.symm)
    simp [hb, hb']
  · simp [hb]

theorem RamStore.foldl_write_perm {writes writes' : List RamWrite} (hperm : writes.Perm writes')
    (hnodup : (writes.map RamWrite.block).Nodup) (store : RamStore) :
    writes.foldl (fun ram w => ram.write w.block w.address w.data) store =
      writes'.foldl (fun ram w => ram.write w.block w.address w.data) store := by
  apply foldl_perm_of_nodup RamWrite.block _ hperm hnodup
  intro store w w' hne
  exact store.write_comm hne _ _ _ _

/-!
### What a commit does
-/

namespace State

variable {c : Circuit} {s : State} {sampled : NetTable}

/-- Where nothing waits, a commit changes nothing. -/
theorem commit_of_pending_empty (h : s.pending = {}) : s.commit c = (s, ⟨0, 0⟩) := by
  rcases s with ⟨nets, ram, pending⟩
  subst h
  simp [commit]

/-- There are as many requests as enabled blocks. -/
theorem length_writes (c : Circuit) (nets : NetTable) : (updates c nets).writes.length =
    c.rams.countP (fun ram => ram.writeEnable.read nets ≠ 0) := by
  have hsome : ∀ e : RamBlock × Nat, (writeRequest? nets e.2 e.1).isSome =
      ((fun ram => decide (ram.writeEnable.read nets ≠ 0)) ∘ Prod.fst) e := by
    intro e
    by_cases henable : e.1.writeEnable.read nets = 0
    · simp [writeRequest?, henable]
    · simp [writeRequest?, henable]
  rw [updates, List.length_filterMap_eq_countP]
  simp only [hsome]
  rw [← List.countP_map, List.zipIdx_map_fst]

/-- The nets after a commit: every register has its next value, as the sampled nets had it. -/
theorem nets_commit (h : s.pending = updates c sampled) : (s.commit c).1.nets =
    NetTable.assignAll Register.current (fun r => r.next.read sampled &&& Word.mask r.width)
      c.registers s.nets := by
  unfold commit
  rw [h]
  exact NetTable.assignAll_zip_map Register.current _ c.registers s.nets

/-- The memories after a commit: the writes that the sampled nets asked for have been made. -/
theorem ram_commit (h : s.pending = updates c sampled) : (s.commit c).1.ram =
    (updates c sampled).writes.foldl (fun ram w => ram.write w.block w.address w.data) s.ram := by
  unfold commit
  rw [h]

theorem count_commit (h : s.pending = updates c sampled) : (s.commit c).2 =
    ⟨c.registers.length, c.rams.countP (fun ram => ram.writeEnable.read sampled ≠ 0)⟩ := by
  unfold commit
  rw [h, length_writes]
  simp [updates]

variable (hsound : c.Sound) (hs : s.Shaped c)

include hsound hs

theorem toNat_register_commit (h : s.pending = updates c sampled) {r : Register}
    (hr : r ∈ c.registers) : (NetTable.value (s.commit c).1.nets r.current).toNat =
      (r.next.read sampled).toNat % 2 ^ r.width := by
  have hlt : r.current.index < s.nets.size := by
    rw [hs.size_eq]
    exact hsound.registers_lt r hr
  rw [nets_commit h, NetTable.value_assignAll_of_mem (currents_nodup hsound) hr hlt,
    Word.toNat_and_mask]

omit hsound in
theorem toNat_read_commit (h : s.pending = updates c sampled) {b : Nat} {ram : RamBlock}
    (hram : c.rams[b]? = some ram) (address : Word) :
    ((s.commit c).1.ram.read b address).toNat =
      if ram.writeEnable.read sampled ≠ 0 ∧
          address.toNat = (ram.writeAddr.read sampled).toNat % 2 ^ ram.addrWidth then
        (ram.writeData.read sampled).toNat % 2 ^ ram.wordWidth
      else (s.ram.read b address).toNat := by
  rw [ram_commit h, read_foldl_writes hs.room hram, apply_ite UInt64.toNat, Word.toNat_and_mask]
  simp only [← UInt64.toNat_inj, Word.toNat_and_mask]

end State

namespace Description

open State (updates writeRequest? blank)

/-- Sampled updates are applied exactly once, and from the table that was sampled. After any history of
    samples, commits, resets, changes of nets and writes to memories, with whatever words: a commit with no
    sample since the last commit or reset changes nothing. Otherwise there is a latest sample, and by the
    nets as they were then, every register takes its next value, every enabled block the word at the address,
    all modulo the powers of two of their widths; all other nets and cells stay as the commit finds them,
    and the count is that of the registers and of the enabled blocks. The updates can be made in any order
    of the registers and of the blocks, and a change of nets before the commit makes no difference to
    them. -/
theorem commit_applies_latest_sample {d : Description} {config : Config} {c : Circuit}
    (h : d.compile config = .ok c) (history : List Action) :
    let s := (blank c).acts c history
    let committed := (s.commit c).1
    (Unsampled history → s.commit c = (s, ⟨0, 0⟩)) ∧
    (¬ Unsampled history → ∃ before, LatestSample history before) ∧
    ∀ before, LatestSample history before →
      let sampled := ((blank c).acts c before).nets
      (s.commit c).2 =
        ⟨c.registers.length, c.rams.countP (fun ram => ram.writeEnable.read sampled ≠ 0)⟩ ∧
      (∀ r ∈ c.registers, (NetTable.value committed.nets r.current).toNat =
        (r.next.read sampled).toNat % 2 ^ r.width) ∧
      (∀ id, id ∉ c.registers.map Register.current →
        NetTable.value committed.nets id = NetTable.value s.nets id) ∧
      (∀ (b : Nat) (ram : RamBlock), c.rams[b]? = some ram → ∀ address,
        (committed.ram.read b address).toNat =
          if ram.writeEnable.read sampled ≠ 0 ∧
              address.toNat = (ram.writeAddr.read sampled).toNat % 2 ^ ram.addrWidth then
            (ram.writeData.read sampled).toNat % 2 ^ ram.wordWidth
          else (s.ram.read b address).toNat) ∧
      (∀ (registers : List Register) (blocks : List (RamBlock × Nat)),
        registers.Perm c.registers → blocks.Perm c.rams.zipIdx →
        committed.nets = NetTable.assignAll Register.current
          (fun r => r.next.read sampled &&& Word.mask r.width) registers s.nets ∧
        committed.ram = (blocks.filterMap (fun e => writeRequest? sampled e.2 e.1)).foldl
          (fun ram w => ram.write w.block w.address w.data) s.ram) ∧
      (∀ assignments, ((s.drive assignments).commit c).2 = (s.commit c).2 ∧
        ((s.drive assignments).commit c).1.ram = committed.ram ∧
        ∀ r ∈ c.registers, NetTable.value ((s.drive assignments).commit c).1.nets r.current =
          NetTable.value committed.nets r.current) := by
  intro s committed
  have hsound := sound_of_compile h
  have hs : s.Shaped c := (State.shaped_blank c).acts history
  refine ⟨?_, ?_, ?_⟩
  · intro hunsampled
    exact State.commit_of_pending_empty (State.pending_of_unsampled rfl hunsampled)
  · intro hsampled
    exact (unsampled_or_latestSample history).resolve_left hsampled
  · intro before hlatest sampled
    have hpending : s.pending = updates c sampled := State.pending_of_latestSample hlatest
    refine ⟨State.count_commit hpending, ?_, ?_, ?_, ?_, ?_⟩
    · intro r hr
      exact State.toNat_register_commit hsound hs hpending hr
    · intro id hid
      unfold committed
      rw [State.nets_commit hpending]
      exact NetTable.value_assignAll_of_not_mem hid
    · intro b ram hram address
      exact State.toNat_read_commit hs hpending hram address
    · intro registers blocks hregisters hblocks
      constructor
      · refine (State.nets_commit hpending).trans ?_
        exact NetTable.assignAll_perm _ hregisters.symm (State.currents_nodup hsound) s.nets
      · refine (State.ram_commit hpending).trans ?_
        exact RamStore.foldl_write_perm (hblocks.symm.filterMap _) (State.nodup_writes c sampled) s.ram
    · intro assignments
      refine ⟨rfl, rfl, ?_⟩
      intro r hr
      have hchanged := State.toNat_register_commit hsound (hs.act (.change assignments)) hpending hr
      have hunchanged := State.toNat_register_commit hsound hs hpending hr
      exact UInt64.toNat_inj.1 (hchanged.trans hunchanged.symm)

/-- The nets of the keeper that its register and its memory read, with words that are wider than they are:
    the register is to take `0x7`, and the memory the word `0x5` at the address `0x3`. -/
def keeperWords : List (NetId × Word) :=
  [(⟨0⟩, 3), (⟨2⟩, 7), (⟨4⟩, 5)]

/-- A history of the keeper that ends in a sample which has not been committed: an earlier sample is
    committed, one is dropped by a reset and one is replaced, and after the last one nets are changed and a
    word that is too wide is written to its memory. -/
def keeperHistory : List Action :=
  [.sample, .commit, .sample, .reset, .sample, .change keeperWords, .sample,
    .change [(⟨0⟩, 0), (⟨2⟩, 0), (⟨4⟩, 0)], .write 0 0 9]

/-- The commit after this history gives the register and the memory what was sampled last, modulo their
    widths, leaves the other cell alone, and a second commit changes nothing. -/
theorem commit_applies_latest_sample_keeper : ∃ c, keeper.compile .standard = .ok c ∧
    LatestSample keeperHistory (keeperHistory.take 6) ∧ Unsampled (keeperHistory ++ [.commit]) ∧
    let s := (blank c).acts c keeperHistory
    (s.commit c).2 = ⟨1, 1⟩ ∧
    (∃ r ∈ c.registers, (NetTable.value (s.commit c).1.nets r.current).toNat = 3) ∧
    ((s.commit c).1.ram.read 0 1).toNat = 1 ∧ ((s.commit c).1.ram.read 0 0).toNat = 9 ∧
    (s.commit c).1.commit c = ((s.commit c).1, ⟨0, 0⟩) := by
  rcases exists_eq_ok_of_isOk (x := keeper.compile .standard) (by decide +kernel) with ⟨c, hc⟩
  have hlatest : LatestSample keeperHistory (keeperHistory.take 6) :=
    ⟨keeperHistory.drop 7, rfl, by decide, by decide, by decide⟩
  have hunsampled : Unsampled (keeperHistory ++ [.commit]) :=
    unsampled_concat_iff.2 ⟨by simp, .inl rfl⟩
  have hkeeper : (match keeper.compile .standard with
      | .ok c =>
        let sampled := ((blank c).acts c (keeperHistory.take 6)).nets
        decide ((c.registers.map fun r => (r.next.read sampled).toNat % 2 ^ r.width) = [3]) &&
          decide ((c.rams.map fun ram => ((ram.writeEnable.read sampled).toNat,
            (ram.writeAddr.read sampled).toNat % 2 ^ ram.addrWidth,
            (ram.writeData.read sampled).toNat % 2 ^ ram.wordWidth)) = [(1, 1, 1)]) &&
          decide ((((blank c).acts c keeperHistory).ram.read 0 0).toNat = 9)
      | .error _ => false) = true := by decide +kernel
  rw [hc] at hkeeper
  simp only [Bool.and_eq_true, decide_eq_true_iff] at hkeeper
  rcases hkeeper with ⟨⟨hregisters, hrams⟩, hcell⟩
  rcases List.map_eq_singleton_iff.1 hregisters with ⟨r, hr, hnext⟩
  rcases List.map_eq_singleton_iff.1 hrams with ⟨ram, hram, hwrite⟩
  simp only [Prod.mk.injEq] at hwrite
  rcases hwrite with ⟨henable, haddress, hdata⟩
  have henabled : ram.writeEnable.read ((blank c).acts c (keeperHistory.take 6)).nets ≠ 0 := by
    intro hzero
    simp [hzero] at henable
  have hgeneral := commit_applies_latest_sample hc keeperHistory
  rcases hgeneral.2.2 _ hlatest with ⟨hcount, hvalue, -, hread, -, -⟩
  have hblock : c.rams[0]? = some ram := by simp [hram]
  refine ⟨c, hc, hlatest, hunsampled, ?_, ⟨r, by simp [hr], ?_⟩, ?_, ?_, ?_⟩
  · rw [hcount, hr, hram]
    simp [henabled]
  · rw [hvalue r (by simp [hr]), hnext]
  · rw [hread 0 ram hblock 1, haddress, hdata]
    simp [henabled]
  · rw [hread 0 ram hblock 0, haddress, hcell]
    simp
  · have hsecond := (commit_applies_latest_sample hc (keeperHistory ++ [.commit])).1 hunsampled
    rw [State.acts_append] at hsecond
    exact hsecond

end Description

end Netlist
