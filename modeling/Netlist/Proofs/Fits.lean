/-
Module: Netlist.Proofs.Fits
Layer: Proofs
Purpose: Values always fit. In every simulation of a compiled circuit each net carries a value of its
  width, and the RAM cells hold words of theirs. Driving inputs, settling, committing and resetting all
  keep this: gates that pass their operands on rely on what the operands carry, and the typing of
  equations makes these as wide as the target. So it holds after every sequence of calls, whatever the
  ROM contains, and with it everything that can be observed fits.
Imports: Netlist.Proofs.Calls, Netlist.Proofs.Denotation, Netlist.Proofs.Ram, Netlist.Proofs.WellFormed
Main exports: Simulator.Fits, Description.Checked.fits_create, Description.Checked.fits_step,
  Description.Checked.fits_reset, Description.Checked.fits_calls, Description.observed_values_fit
-/
import Netlist.Proofs.Calls
import Netlist.Proofs.Denotation
import Netlist.Proofs.Ram
import Netlist.Proofs.WellFormed

namespace Netlist

/-- Changing nets to words that fit leaves only values that fit. -/
theorem Scope.Carries.assignAll {scope : Scope} {nets : NetTable} {α : Type} {target : α → NetId}
    {word : α → Word} {entries : List α} (h : scope.Carries nets)
    (hfits : ∀ a ∈ entries, (word a).toNat < 2 ^ scope.width (target a)) :
    scope.Carries (NetTable.assignAll target word entries nets) := by
  induction entries generalizing nets with
  | nil => exact h
  | cons a rest ih =>
      exact ih (h.assign (hfits a List.mem_cons_self))
        (fun b hb => hfits b (List.mem_cons_of_mem a hb))

theorem Scope.carries_replicate {scope : Scope} {size : Nat} (h : size = scope.nets.size) :
    scope.Carries (Array.replicate size 0) := by
  refine ⟨by rw [Array.size_replicate, h], ?_⟩
  intro id hid
  have hzero : NetTable.value (Array.replicate size 0) id = 0 := by
    simp [NetTable.value, h, hid]
  rw [hzero]
  exact Nat.two_pow_pos _

/-- A simulation of a circuit in which everything fits. -/
structure Simulator.Fits (scope : Scope) (c : Circuit) (rom : RomStore) (sim : Simulator) : Prop where
  circuit_eq : sim.circuit = c
  rom_eq : sim.rom = rom
  carries : scope.Carries sim.state.nets
  ram_fits : sim.state.ram.Fits c.rams

namespace Description

/-- An output vector lists the output pins of a description with values of their widths. -/
def OutputFits (d : Description) (output : OutputVector) : Prop :=
  List.Forall₂ (fun name e => e.1 = name ∧ ∃ w, d.width? name = some w ∧ e.2.toNat < 2 ^ w)
    d.outputs output.values

variable {d : Description} {limit : Nat} {inputs outputs : List Pin} {parts : List Part}
  {schedule : List Nat} {nets : NetTable} {memories : Memories} {rom : RomStore}

/-- The value that is seen at a name is the value of its net. -/
theorem peek?_eq_some_iff {sim : Simulator}
    (hcircuit : sim.circuit = d.circuit inputs outputs parts schedule) (limit : Nat) {name : String}
    {v : Word} : sim.peek? name = some v ↔
      ∃ id, (d.scope limit).find name = .ok id ∧ NetTable.value sim.state.nets id = v := by
  rw [Simulator.peek?, hcircuit, Option.map_eq_some_iff]
  simp only [Scope.find_eq_ok_iff_findNet?]
  rfl

namespace Checked

variable (h : d.Checked limit inputs outputs parts)

include h

/-- The equation of a register, with what it says about the register. -/
theorem register {r : Register} (hr : r ∈ parts.filterMap Part.register?) :
    ∃ eq ∈ d.equations, ∃ operand, eq.op = .reg ∧ eq.args = [operand] ∧
      (d.scope limit).find eq.target = .ok r.current ∧ r.width = (d.scope limit).width r.current ∧
      (d.scope limit).Resolves (some r.width) operand ⟨r.next, r.width⟩ ∧
      r.init.toNat < 2 ^ r.width := by
  obtain ⟨part, hpart, hr⟩ := List.mem_filterMap.1 hr
  obtain ⟨k, hk⟩ := List.mem_iff_getElem?.1 hpart
  obtain ⟨eq, heq, hfind, -, hwidth, helem⟩ := h.elaborates hk
  obtain ⟨hcurrent, hrwidth, helement⟩ := Part.register?_eq_some hr
  rw [helement] at helem
  obtain ⟨operand, hop, hargs, hresolves, -, hinit⟩ := helem.register_inv
  refine ⟨eq, List.mem_of_getElem? heq, operand, hop, hargs, ?_⟩
  rw [hcurrent, hrwidth]
  exact ⟨hfind, hwidth, hresolves, hinit⟩

/-!
### What a simulation does to its nets
-/

/-- Driving pins with accepted words keeps the values in range. -/
theorem carries_drive {vector : InputVector} {assignments : List (NetId × Word)}
    (haccepts : Accepts vector inputs assignments) (hnets : (d.scope limit).Carries nets) :
    (d.scope limit).Carries (NetTable.assignAll Prod.fst Prod.snd assignments nets) := by
  refine hnets.assignAll (fun a ha => ?_)
  obtain ⟨pin, hpin, hnet, -, hlt⟩ := forall₂_mem_right haccepts ha
  obtain ⟨name, -, -, -, hwidth⟩ := forall₂_mem_right h.inputs_attached hpin
  rw [hnet, ← hwidth]
  exact hlt

theorem carries_settleNets (hnets : (d.scope limit).Carries nets) :
    (d.scope limit).Carries
      (State.settleNets (d.circuit inputs outputs parts schedule) memories nets) := by
  rw [State.settleNets]
  generalize (d.circuit inputs outputs parts schedule).schedule = order
  induction order generalizing nets with
  | nil => exact hnets
  | cons g rest ih =>
      refine ih ?_
      rw [State.settleGate]
      split
      · next gate hgate =>
          have hmem : gate ∈ Part.gatesFrom 0 0 parts := by
            simpa [circuit] using Array.mem_of_getElem? hgate
          obtain ⟨k, part, hk, hgate⟩ := Part.mem_gatesFrom_iff.1 hmem
          obtain ⟨eq, -, -, -, hwidth, helem⟩ := h.elaborates hk
          obtain ⟨houtput, -, -⟩ := Part.gate?_eq_some hgate
          refine hnets.assign ?_
          rw [houtput, ← hwidth]
          exact helem.eval_lt h.proper (h.width_le hk) hnets hgate
      · exact hnets

/-- Registers take values of their widths. -/
theorem carries_committed (hnets : (d.scope limit).Carries nets) :
    (d.scope limit).Carries
      (Simulator.committed (d.circuit inputs outputs parts schedule) nets) := by
  refine hnets.assignAll (fun r hr => ?_)
  obtain ⟨eq, -, operand, -, -, -, hwidth, -⟩ := h.register hr
  rw [← hwidth]
  exact Word.toNat_and_mask_lt _ _

theorem carries_powerOn (hnets : (d.scope limit).Carries nets) :
    (d.scope limit).Carries (NetTable.assignAll Register.current Register.init
      (parts.filterMap Part.register?) nets) := by
  refine hnets.assignAll (fun r hr => ?_)
  obtain ⟨eq, -, operand, -, -, -, hwidth, -, hinit⟩ := h.register hr
  rw [← hwidth]
  exact hinit

/-!
### Calls
-/

theorem fits_create (rom : RomStore) (settings : Config) :
    (Simulator.create (d.circuit inputs outputs parts schedule) rom settings).Fits (d.scope limit)
      (d.circuit inputs outputs parts schedule) rom :=
  ⟨rfl, rfl, h.carries_powerOn (Scope.carries_replicate rfl), RamStore.fits_ofCircuit _⟩

/-- An accepted step leaves values that fit, and so are its outputs. -/
theorem fits_step {sim sim' : Simulator} {vector : InputVector} {output : OutputVector}
    (hfits : sim.Fits (d.scope limit) (d.circuit inputs outputs parts schedule) rom)
    (hok : sim.step vector = .ok (output, sim')) :
    sim'.Fits (d.scope limit) (d.circuit inputs outputs parts schedule) rom ∧
      d.OutputFits output := by
  obtain ⟨assignments, haccepts, rfl, hcircuit, hrom, hnets, hram⟩ := Simulator.step_eq_ok hok
  rw [hfits.circuit_eq] at haccepts
  have hsettled : (d.scope limit).Carries (sim.settled assignments) := by
    rw [Simulator.settled, hfits.circuit_eq]
    exact h.carries_settleNets (h.carries_drive haccepts hfits.carries)
  refine ⟨⟨hcircuit.trans hfits.circuit_eq, hrom.trans hfits.rom_eq, ?_, ?_⟩, ?_⟩
  · rw [hnets, hfits.circuit_eq]
    exact h.carries_committed hsettled
  · rw [hram, hfits.circuit_eq]
    exact hfits.ram_fits.foldl_write (fun w hw => State.allowed_of_mem_updates hw)
  · rw [hfits.circuit_eq, OutputFits, Simulator.outputs]
    refine List.forall₂_map_right_iff.2 (h.outputs_attached.imp ?_)
    rintro name pin ⟨hname, hfind, hwidth⟩
    exact ⟨hname, _, (width?_eq_some_iff h.size_le).2 ⟨pin.net, hfind, rfl⟩,
      hsettled.value_lt _ (h.proper.index_lt hfind)⟩

theorem fits_reset {sim : Simulator}
    (hfits : sim.Fits (d.scope limit) (d.circuit inputs outputs parts schedule) rom) :
    sim.reset.Fits (d.scope limit) (d.circuit inputs outputs parts schedule) rom := by
  refine ⟨hfits.circuit_eq, hfits.rom_eq, ?_, hfits.ram_fits.clear⟩
  have hpowerOn := h.carries_powerOn (Scope.carries_replicate hfits.carries.size_eq)
  rw [Simulator.reset, hfits.circuit_eq]
  exact hpowerOn

/-- After every sequence of calls everything fits. -/
theorem fits_calls (rom : RomStore) (settings : Config) (sequence : List Call) :
    ((Simulator.create (d.circuit inputs outputs parts schedule) rom settings).calls sequence).Fits
      (d.scope limit) (d.circuit inputs outputs parts schedule) rom :=
  Simulator.calls_invariant (fun _ _ _ _ hfits hok => (h.fits_step hfits hok).1)
    (fun _ hfits => h.fits_reset hfits) (h.fits_create rom settings)

/-!
### Observations
-/

/-- The name of a net that is found is the name it was found by. -/
theorem netName_eq {name : String} {id : NetId} (hfind : (d.scope limit).find name = .ok id) :
    (d.circuit inputs outputs parts schedule).netName id = name := by
  obtain ⟨net, hget, rfl⟩ := h.proper.find_eq_ok_iff.1 hfind
  have hnets : (d.circuit inputs outputs parts schedule).nets[id.index]? = some net := hget
  rw [Circuit.netName, hnets]

theorem ramBlock {block : RamBlock} (hblock : block ∈ parts.filterMap Part.ramBlock?) :
    ∃ eq ∈ d.equations, eq.op = .ram ∧ eq.target = block.name ∧
      ∃ addrWidth wordWidth : UInt32, eq.params = [addrWidth, wordWidth] ∧
        addrWidth.toNat = block.addrWidth ∧ wordWidth.toNat = block.wordWidth := by
  obtain ⟨part, hpart, hblock⟩ := List.mem_filterMap.1 hblock
  obtain ⟨k, hk⟩ := List.mem_iff_getElem?.1 hpart
  obtain ⟨eq, heq, -, hname, -, helem⟩ := h.elaborates hk
  rcases part with ⟨name, target, width, element⟩
  cases element with
  | ram addrWidth wordWidth readAddr writeEnable writeAddr writeData =>
      cases hblock
      obtain ⟨_, _, _, _, aw, ww, hop, -, hparams, haw, hww, -⟩ := helem.ram_inv
      exact ⟨eq, List.mem_of_getElem? heq, hop, hname.symm, aw, ww, hparams, haw, hww⟩
  | logic | register | rom => cases hblock

/-- Every declared net shows a value of its width. -/
theorem peek?_fits {sim : Simulator}
    (hfits : sim.Fits (d.scope limit) (d.circuit inputs outputs parts schedule) rom) {decl : NetDecl}
    (hdecl : decl ∈ d.nets) :
    ∃ v, sim.peek? decl.name = some v ∧ v.toNat < 2 ^ decl.width.toNat := by
  obtain ⟨i, hi, rfl⟩ := List.getElem_of_mem hdecl
  have hindex : (NetId.ofIndex i).index = i :=
    NetId.index_ofIndex (Nat.lt_of_lt_of_le hi h.size_le)
  have hget : (d.scope limit).nets[(NetId.ofIndex i).index]? = some (netInfo d.nets[i]) := by
    rw [hindex]
    simp [scope, netTable, hi]
  have hfind : (d.scope limit).find d.nets[i].name = .ok (NetId.ofIndex i) :=
    h.proper.find_eq_ok_iff.2 ⟨_, hget, rfl⟩
  refine ⟨_, (peek?_eq_some_iff hfits.circuit_eq limit).2 ⟨_, hfind, rfl⟩, ?_⟩
  have hlt := hfits.carries.value_lt _ (h.proper.index_lt hfind)
  rw [Scope.width_of_getElem? hget] at hlt
  exact hlt

theorem snapshot_registers_fit {sim : Simulator}
    (hfits : sim.Fits (d.scope limit) (d.circuit inputs outputs parts schedule) rom)
    {e : String × Word} (he : e ∈ sim.snapshot.registers) :
    ∃ w, d.width? e.1 = some w ∧ e.2.toNat < 2 ^ w := by
  rw [Simulator.snapshot, hfits.circuit_eq] at he
  obtain ⟨r, hr, rfl⟩ := List.mem_map.1 he
  obtain ⟨eq, -, operand, -, -, hfind, -⟩ := h.register hr
  rw [h.netName_eq hfind]
  exact ⟨_, (width?_eq_some_iff h.size_le).2 ⟨_, hfind, rfl⟩,
    hfits.carries.value_lt _ (h.proper.index_lt hfind)⟩

theorem snapshot_rams_fit {sim : Simulator}
    (hfits : sim.Fits (d.scope limit) (d.circuit inputs outputs parts schedule) rom)
    {e : String × List (Word × Word)} (he : e ∈ sim.snapshot.rams) :
    ∃ eq ∈ d.equations, eq.op = .ram ∧ eq.target = e.1 ∧
      ∃ addrWidth wordWidth : UInt32, eq.params = [addrWidth, wordWidth] ∧ ∀ cell ∈ e.2,
        cell.1.toNat < 2 ^ addrWidth.toNat ∧ 0 < cell.2.toNat ∧
          cell.2.toNat < 2 ^ wordWidth.toNat := by
  rw [Simulator.snapshot, hfits.circuit_eq] at he
  obtain ⟨⟨block, b⟩, hblock, rfl⟩ := List.mem_map.1 he
  rw [List.mem_zipIdx_iff_getElem?] at hblock
  obtain ⟨eq, heq, hop, hname, aw, ww, hparams, haw, hww⟩ := h.ramBlock (List.mem_of_getElem? hblock)
  refine ⟨eq, heq, hop, hname, aw, ww, hparams, fun cell hcell => ?_⟩
  rw [haw, hww]
  exact hfits.ram_fits.nonZero hblock hcell

end Checked

/-- Bus values always fit: whatever is called on a simulation of a compiled description, every net shows
    a value of its width, every output has the width of its pin, every register in a snapshot has the
    width of its net, and every listed RAM cell is in range and not zero. -/
theorem observed_values_fit {d : Description} {config : Config} {c : Circuit}
    (h : d.compile config = .ok c) (rom : RomStore) (settings : Config) (sequence : List Call) :
    let sim := (Simulator.create c rom settings).calls sequence
    (∀ decl ∈ d.nets, ∃ v, sim.peek? decl.name = some v ∧ v.toNat < 2 ^ decl.width.toNat) ∧
    (∀ vector output sim', sim.step vector = .ok (output, sim') → d.OutputFits output) ∧
    (∀ vectors results sim', sim.run vectors = (.ok results, sim') →
      ∀ output ∈ results, d.OutputFits output) ∧
    (∀ e ∈ sim.snapshot.registers, ∃ w, d.width? e.1 = some w ∧ e.2.toNat < 2 ^ w) ∧
    (∀ e ∈ sim.snapshot.rams, ∃ eq ∈ d.equations, eq.op = .ram ∧ eq.target = e.1 ∧
      ∃ addrWidth wordWidth : UInt32, eq.params = [addrWidth, wordWidth] ∧ ∀ cell ∈ e.2,
        cell.1.toNat < 2 ^ addrWidth.toNat ∧ 0 < cell.2.toNat ∧
          cell.2.toNat < 2 ^ wordWidth.toNat) := by
  intro sim
  obtain ⟨inputs, outputs, parts, schedule, hchecked, -, rfl⟩ := compile_eq_ok_iff.1 h
  have hfits : sim.Fits (d.scope config.maxBusWidth) (d.circuit inputs outputs parts schedule) rom :=
    hchecked.fits_calls rom settings sequence
  refine ⟨fun decl hdecl => hchecked.peek?_fits hfits hdecl,
    fun vector output sim' hok => (hchecked.fits_step hfits hok).2, ?_,
    fun e he => hchecked.snapshot_registers_fit hfits he,
    fun e he => hchecked.snapshot_rams_fit hfits he⟩
  intro vectors results sim' hrun output hmem
  have hinvariant := Simulator.run_invariant
    (fun sim inputs output sim' hsim hok => hchecked.fits_step hsim hok) vectors hfits
  exact hinvariant.2 results (congrArg Prod.fst hrun) output hmem

/-- The values of the keeper fit in the middle of a sequence of calls, some of them refused, while its
    table reads a default word that is wider than its entries. -/
theorem observed_values_fit_keeper :
    ∃ c, keeper.compile .standard = .ok c ∧
      ∀ decl ∈ keeper.nets, ∃ v,
        ((Simulator.create c ⟨#[], 0xFFFFFFFFFFFFFFFF, false, false⟩ .standard).calls
          [.step (.ofList [("set", 1)]), .step (.ofList [("set", 2)]), .reset,
            .run [.ofList [("set", 1)], .empty]]).peek? decl.name = some v ∧
          v.toNat < 2 ^ decl.width.toNat := by
  obtain ⟨c, hc⟩ := exists_eq_ok_of_isOk (x := keeper.compile .standard) (by decide +kernel)
  exact ⟨c, hc, (observed_values_fit hc _ _ _).1⟩

end Description

end Netlist
