/-
Module: Netlist.Proofs.Meaning
Layer: Proofs
Purpose: A step does what the equations say. During an accepted step the nets have values that satisfy
  every equation of the description in plain arithmetic: input pins have the given values, registers the
  ones they held, and every other net the meaning of its equation. The outputs are these values, registers
  then take the values of their operands, and enabled writes, and no others, change the memories.
Imports: Netlist.Proofs.Fits, Netlist.Proofs.Settle
Main exports: Description.block, Description.Explains, Description.Checked.explains,
  Description.exists_explains_of_step
-/
import Netlist.Proofs.Fits
import Netlist.Proofs.Settle

namespace Netlist

namespace Description

/-- The number of the memory block of equation `k` among the blocks of an operation: how many equations
    of the operation come before it. -/
def block (d : Description) (op : Op) (k : Nat) : Nat :=
  (d.equations.take k).countP (fun eq => eq.op == op)

/-- The values `V` of nets by name explain a step with the given inputs from `sim` to `sim'`. -/
structure Explains (d : Description) (rom : RomStore) (vector : InputVector) (sim sim' : Simulator)
    (output : OutputVector) (V : String → Nat) : Prop where
  /-- Input pins have the values that they are given. -/
  inputs : ∀ name ∈ d.inputs, ∃ v, vector.get? name = some v ∧ V name = v.toNat
  /-- Registers have the values from before the step. -/
  registers : ∀ eq ∈ d.equations, eq.op = .reg → ∃ v, sim.peek? eq.target = some v ∧
    V eq.target = v.toNat
  /-- Every other target has the value that its equation denotes, with memories as before the step. -/
  equations : ∀ (k : Nat) (eq : Equation), d.equations[k]? = some eq → eq.op ≠ .reg →
    ∃ w, d.width? eq.target = some w ∧ V eq.target = eq.denote d.width? w V
      (fun a => (rom.read (d.block .rom k) (UInt64.ofNat a)).toNat)
      (fun a => (sim.state.ram.read (d.block .ram k) (UInt64.ofNat a)).toNat)
  /-- The outputs are the values of the output pins. -/
  outputs : output.values.map (fun e => (e.1, e.2.toNat)) = d.outputs.map (fun name => (name, V name))
  /-- After the step, a register has the value of its operand. -/
  registers_after : ∀ eq ∈ d.equations, eq.op = .reg → ∃ operand v, eq.args = [operand] ∧
    sim'.peek? eq.target = some v ∧ v.toNat = operand.value V
  /-- After the step, every other net has its value from the step. -/
  nets_after : ∀ decl ∈ d.nets, (∀ eq ∈ d.equations, eq.target = decl.name → eq.op ≠ .reg) →
    ∃ v, sim'.peek? decl.name = some v ∧ v.toNat = V decl.name
  /-- After the step, the cell that an enabled write goes to has the written word, and every other cell
      the word from before the step. -/
  rams_after : ∀ (k : Nat) (eq : Equation), d.equations[k]? = some eq → eq.op = .ram →
    ∃ readAddr writeEnable writeAddr writeData,
      eq.args = [readAddr, writeEnable, writeAddr, writeData] ∧ ∀ a : Word,
        (sim'.state.ram.read (d.block .ram k) a).toNat =
          if writeEnable.value V ≠ 0 ∧ a.toNat = writeAddr.value V then writeData.value V
          else (sim.state.ram.read (d.block .ram k) a).toNat

/-!
### Block numbers
-/

variable {d : Description} {limit : Nat} {inputs outputs : List Pin} {parts : List Part}
  {schedule : List Nat} {rom : RomStore}

namespace Checked

variable (h : d.Checked limit inputs outputs parts)

include h

/-- The number of a ROM block is the number of ROM equations before its own. -/
theorem romCount_take (k : Nat) : Part.romCount (parts.take k) = d.block .rom k := by
  rw [Part.romCount, block, List.length_filterMap_eq_countP]
  refine (countP_eq_of_forall₂ (List.forall₂_take k h.parts_checked) ?_).symm
  intro eq part hpart
  obtain ⟨-, -, -, helem⟩ := Equation.part_eq_ok_iff.1 hpart
  rw [Bool.eq_iff_iff, beq_iff_eq, helem.kind.2.1]
  rcases part with ⟨name, target, width, element⟩
  cases element <;> simp [Part.romBlock?]

theorem ramCount_take (k : Nat) : Part.ramCount (parts.take k) = d.block .ram k := by
  rw [Part.ramCount, block, List.length_filterMap_eq_countP]
  refine (countP_eq_of_forall₂ (List.forall₂_take k h.parts_checked) ?_).symm
  intro eq part hpart
  obtain ⟨-, -, -, helem⟩ := Equation.part_eq_ok_iff.1 hpart
  rw [Bool.eq_iff_iff, beq_iff_eq, helem.kind.2.2]
  rcases part with ⟨name, target, width, element⟩
  cases element <;> simp [Part.ramBlock?]

/-- The block of a RAM equation, with the operands of its write. -/
theorem ram_at {k : Nat} {eq : Equation} (heq : d.equations[k]? = some eq) (hop : eq.op = .ram) :
    ∃ readAddr writeEnable writeAddr writeData : Operand, ∃ block : RamBlock,
      eq.args = [readAddr, writeEnable, writeAddr, writeData] ∧
      (parts.filterMap Part.ramBlock?)[d.block .ram k]? = some block ∧
      d.width? eq.target = some block.wordWidth ∧
      (d.scope limit).Resolves (some 1) writeEnable ⟨block.writeEnable, 1⟩ ∧
      (d.scope limit).Resolves (some block.addrWidth) writeAddr
        ⟨block.writeAddr, block.addrWidth⟩ ∧
      (d.scope limit).Resolves (some block.wordWidth) writeData
        ⟨block.writeData, block.wordWidth⟩ := by
  obtain ⟨part, hpart, hfind, -, hwidth, helem⟩ := h.part heq
  obtain ⟨aw, ww, sr, se, sw, sd, helement⟩ := helem.kind.2.2.1 hop
  rw [helement] at helem
  obtain ⟨readAddr, writeEnable, writeAddr, writeData, _, _, -, hargs, -, -, -, hword, henable, hwrite,
    hdata⟩ := helem.ram_inv
  have hblock : part.ramBlock? = some ⟨part.name, aw, ww, se, sw, sd⟩ := by
    rw [Part.ramBlock?, helement]
  have hget := getElem?_filterMap_take hpart hblock
  rw [← Part.ramCount, h.ramCount_take] at hget
  refine ⟨readAddr, writeEnable, writeAddr, writeData, _, hargs, hget, ?_, henable, hwrite, hdata⟩
  rw [width?_eq_some_iff h.size_le]
  exact ⟨part.target, hfind, hwidth.symm.trans hword.symm⟩

/-!
### The settled nets
-/

section Settled

variable {nets : NetTable} {memories : Memories} {vector : InputVector}
  {assignments : List (NetId × Word)}

/-- The nets of input pins and registers are not driven by gates, and differ. -/
theorem not_gate_output {id : NetId} (hid : id ∈ inputs.map Pin.net ∨
    id ∈ (parts.filterMap Part.register?).map Register.current) :
    id ∉ (d.circuit inputs outputs parts schedule).gates.toList.map Gate.output := by
  intro hgate
  have hmem : id ∈ (Part.gatesFrom 0 0 parts).map Gate.output := by
    simpa only [circuit] using hgate
  rcases hid with hid | hid
  · exact List.disjoint_of_nodup_append h.nodup hid (List.mem_append_left _ hmem)
  · exact List.disjoint_of_nodup_append h.nodup.of_append_right hmem hid

variable (hschedule : (dependencies d.nets.length parts).schedule = .ok schedule)
  (hsize : nets.size = d.nets.length) (haccepts : Accepts vector inputs assignments)

include hschedule hsize haccepts

/-- On the settled nets an input pin has the value that it is given. -/
theorem value_settled_input {a : NetId × Word} (ha : a ∈ assignments) :
    NetTable.value (State.settleNets (d.circuit inputs outputs parts schedule) memories
      (NetTable.assignAll Prod.fst Prod.snd assignments nets)) a.1 = a.2 := by
  have hmem : a.1 ∈ inputs.map Pin.net := haccepts.nets_eq ▸ List.mem_map_of_mem ha
  rw [State.value_settleNets_of_not_output (h.sound hschedule) (by simpa [circuit] using hsize)
    (h.not_gate_output (Or.inl hmem))]
  refine NetTable.value_assignAll_of_mem (haccepts.nets_eq ▸ h.nodup.of_append_left) ha ?_
  rw [hsize]
  exact h.driven_lt (List.mem_append_left _ hmem)

/-- On the settled nets a register has the value that it had. -/
theorem value_settled_register {id : NetId}
    (hid : id ∈ (parts.filterMap Part.register?).map Register.current) :
    NetTable.value (State.settleNets (d.circuit inputs outputs parts schedule) memories
      (NetTable.assignAll Prod.fst Prod.snd assignments nets)) id = NetTable.value nets id := by
  rw [State.value_settleNets_of_not_output (h.sound hschedule) (by simpa [circuit] using hsize)
    (h.not_gate_output (Or.inr hid))]
  refine NetTable.value_assignAll_of_not_mem ?_
  rw [haccepts.nets_eq]
  exact fun hpin => List.disjoint_of_nodup_append h.nodup hpin (List.mem_append_right _ hid)

omit haccepts in
/-- On the settled nets the target of an equation that is no register has the value of its gate. -/
theorem value_settled_target (memories : Memories) (assignments : List (NetId × Word)) {k : Nat}
    {eq : Equation} (heq : d.equations[k]? = some eq) (hop : eq.op ≠ .reg) : ∃ part gate, parts[k]? = some part ∧
      part.gate? (d.block .rom k) (d.block .ram k) = some gate ∧
      NetTable.value (State.settleNets (d.circuit inputs outputs parts schedule) memories
        (NetTable.assignAll Prod.fst Prod.snd assignments nets)) part.target =
      gate.eval (State.settleNets (d.circuit inputs outputs parts schedule) memories
        (NetTable.assignAll Prod.fst Prod.snd assignments nets)) memories := by
  obtain ⟨part, hpart, -, -, -, helem⟩ := h.part heq
  have hsome : (part.gate? (d.block .rom k) (d.block .ram k)).isSome = true := by
    rw [Part.isSome_gate?, Option.isNone_iff_eq_none]
    cases hr : part.register? with
    | none => rfl
    | some r => exact absurd (helem.kind.1.2 ⟨_, _, (Part.register?_eq_some hr).2.2⟩) hop
  obtain ⟨gate, hgate⟩ := Option.isSome_iff_exists.1 hsome
  have hmem : gate ∈ Part.gatesFrom 0 0 parts := by
    refine Part.mem_gatesFrom_iff.2 ⟨k, part, hpart, ?_⟩
    rw [Nat.zero_add, Nat.zero_add, h.romCount_take, h.ramCount_take]
    exact hgate
  refine ⟨part, gate, hpart, hgate, ?_⟩
  rw [← (Part.gate?_eq_some hgate).1]
  exact State.value_settleNets_output (h.sound hschedule) (by simpa [circuit] using hsize)
    (by simpa [circuit] using hmem)

end Settled

/-!
### Equations
-/

theorem register_at {eq : Equation} (heq : eq ∈ d.equations) (hop : eq.op = .reg) :
    ∃ r ∈ parts.filterMap Part.register?, ∃ operand, eq.args = [operand] ∧
      (d.scope limit).find eq.target = .ok r.current ∧
      (d.scope limit).Resolves (some r.width) operand ⟨r.next, r.width⟩ := by
  obtain ⟨k, hk⟩ := List.mem_iff_getElem?.1 heq
  obtain ⟨part, hpart, hfind, -, -, helem⟩ := h.part hk
  obtain ⟨next, init, helement⟩ := helem.kind.1.1 hop
  rw [helement] at helem
  obtain ⟨operand, -, hargs, hresolves, -⟩ := helem.register_inv
  have hr : part.register? = some ⟨part.target, next, part.width, init⟩ := by
    rw [Part.register?, helement]
  exact ⟨_, List.mem_filterMap.2 ⟨part, List.mem_of_getElem? hpart, hr⟩, operand, hargs, hfind,
    hresolves⟩

variable {nets : NetTable} {ram : RamStore}

/-- The gate of an equation computes what the equation means with the memories of a circuit. -/
theorem toNat_eval (hram : ram.Fits (parts.filterMap Part.ramBlock?))
    (hnets : (d.scope limit).Carries nets) {k : Nat} {eq : Equation} {part : Part} {gate : Gate}
    (heq : d.equations[k]? = some eq) (hpart : parts[k]? = some part)
    (hgate : part.gate? (d.block .rom k) (d.block .ram k) = some gate) :
    (gate.eval nets (State.memories rom ram)).toNat =
      eq.denote d.width? part.width ((d.scope limit).valuation nets)
        (fun a => (rom.read (d.block .rom k) (UInt64.ofNat a)).toNat)
        (fun a => (ram.read (d.block .ram k) (UInt64.ofNat a)).toNat) := by
  obtain ⟨eq', heq', hfind, -, hwidth, helem⟩ := h.elaborates hpart
  rw [heq] at heq'
  cases heq'
  rw [helem.toNat_eval h.proper (h.width_le hpart) hnets hgate,
    Equation.declaredIn_scope limit h.size_le]
  by_cases hop : eq.op = .ram
  · -- the words of its own block fit the target, so masking changes nothing
    obtain ⟨_, _, _, _, block, -, hblock, hword, -⟩ := h.ram_at heq hop
    have hsame : part.width = block.wordWidth := by
      have hpartWidth : d.width? eq.target = some part.width :=
        (width?_eq_some_iff h.size_le).2 ⟨_, hfind, hwidth.symm⟩
      rw [hword] at hpartWidth
      exact (Option.some.inj hpartWidth).symm
    congr 1
    funext a
    rw [hsame]
    exact Nat.mod_eq_of_lt (hram.read_lt hblock _)
  · exact Equation.denote_congr_ram hop _ _ _ _ _ _

/-!
### Updates
-/

theorem toNat_committed_register (hnets : (d.scope limit).Carries nets) {r : Register}
    {operand : Operand} (hr : r ∈ parts.filterMap Part.register?)
    (hresolves : (d.scope limit).Resolves (some r.width) operand ⟨r.next, r.width⟩) :
    (NetTable.value (Simulator.committed (d.circuit inputs outputs parts schedule) nets)
      r.current).toNat = operand.value ((d.scope limit).valuation nets) := by
  have hlt : r.current.index < nets.size := by
    obtain ⟨eq, -, _, -, -, hfind, -⟩ := h.register hr
    rw [hnets.size_eq]
    exact h.proper.index_lt hfind
  have hvalue : NetTable.value (Simulator.committed (d.circuit inputs outputs parts schedule) nets)
      r.current = r.next.read nets &&& Word.mask r.width :=
    NetTable.value_assignAll_of_mem h.nodup.of_append_right.of_append_right hr hlt
  rw [hvalue]
  exact hresolves.toNat_read_and_mask h.proper hnets

/-- A net that is the target of no register keeps its value when registers take theirs. -/
theorem value_committed_other {name : String} {id : NetId}
    (hfind : (d.scope limit).find name = .ok id)
    (hother : ∀ eq ∈ d.equations, eq.target = name → eq.op ≠ .reg) :
    NetTable.value (Simulator.committed (d.circuit inputs outputs parts schedule) nets) id =
      NetTable.value nets id := by
  refine NetTable.value_assignAll_of_not_mem (fun hmem => ?_)
  obtain ⟨r, hr, rfl⟩ := List.mem_map.1 hmem
  obtain ⟨eq, heq, operand, hop, -, hfind', -⟩ := h.register hr
  exact hother eq heq (h.proper.find_inj hfind' hfind) hop

/-- A RAM cell takes the written word when the write is enabled and goes to it, and else keeps its
    word. -/
theorem toNat_read_written (hram : ram.Fits (parts.filterMap Part.ramBlock?))
    (hnets : (d.scope limit).Carries nets) {k : Nat} {eq : Equation}
    (heq : d.equations[k]? = some eq) (hop : eq.op = .ram) :
    ∃ readAddr writeEnable writeAddr writeData,
      eq.args = [readAddr, writeEnable, writeAddr, writeData] ∧ ∀ a : Word,
        ((Simulator.written (d.circuit inputs outputs parts schedule) nets ram).read
          (d.block .ram k) a).toNat =
          if writeEnable.value ((d.scope limit).valuation nets) ≠ 0 ∧
              a.toNat = writeAddr.value ((d.scope limit).valuation nets) then
            writeData.value ((d.scope limit).valuation nets)
          else (ram.read (d.block .ram k) a).toNat := by
  obtain ⟨readAddr, writeEnable, writeAddr, writeData, block, hargs, hblock, -, henable, haddr,
    hdata⟩ := h.ram_at heq hop
  refine ⟨readAddr, writeEnable, writeAddr, writeData, hargs, fun a => ?_⟩
  -- the operands fit, so masking changes neither the address nor the word
  have hcondition : (block.writeEnable.read nets ≠ 0 ∧
      a = block.writeAddr.read nets &&& Word.mask block.addrWidth) ↔
      (writeEnable.value ((d.scope limit).valuation nets) ≠ 0 ∧
        a.toNat = writeAddr.value ((d.scope limit).valuation nets)) := by
    rw [← henable.toNat_read nets, ← haddr.toNat_read_and_mask h.proper hnets,
      UInt64.toNat_inj, ne_eq, ne_eq, ← UInt64.toNat_inj]
    rfl
  rw [Simulator.written, State.read_foldl_writes hram.hasRoom hblock]
  by_cases hwritten : block.writeEnable.read nets ≠ 0 ∧
      a = block.writeAddr.read nets &&& Word.mask block.addrWidth
  · rw [if_pos hwritten, if_pos (hcondition.1 hwritten),
      hdata.toNat_read_and_mask h.proper hnets]
  · rw [if_neg hwritten, if_neg (fun hand => hwritten (hcondition.2 hand))]

/-!
### Steps
-/

/-- The settled values explain an accepted step. -/
theorem explains (hschedule : (dependencies d.nets.length parts).schedule = .ok schedule)
    {sim sim' : Simulator} {vector : InputVector} {output : OutputVector}
    (hfits : sim.Fits (d.scope limit) (d.circuit inputs outputs parts schedule) rom)
    (hok : sim.step vector = .ok (output, sim')) :
    ∃ V, d.Explains rom vector sim sim' output V := by
  obtain ⟨assignments, haccepts, rfl, hcircuit, -, hnets, hram⟩ := Simulator.step_eq_ok hok
  have hsize : sim.state.nets.size = d.nets.length := by simpa [scope] using hfits.carries.size_eq
  rw [hfits.circuit_eq] at haccepts hcircuit hnets hram
  have hsettled : sim.settled assignments = State.settleNets (d.circuit inputs outputs parts schedule)
      (State.memories rom sim.state.ram)
      (NetTable.assignAll Prod.fst Prod.snd assignments sim.state.nets) := by
    rw [Simulator.settled, hfits.circuit_eq, hfits.rom_eq]
  have hcarries : (d.scope limit).Carries (sim.settled assignments) := by
    rw [hsettled]
    exact h.carries_settleNets (h.carries_drive haccepts hfits.carries)
  refine ⟨(d.scope limit).valuation (sim.settled assignments), ?_⟩
  constructor
  case inputs =>
    intro name hname
    obtain ⟨pin, hpin, rfl, hfind, -⟩ := forall₂_mem_left h.inputs_attached hname
    obtain ⟨a, ha, hnet, hget, -⟩ := forall₂_mem_left haccepts hpin
    refine ⟨a.2, hget, ?_⟩
    rw [Scope.valuation_of_find hfind, ← hnet, hsettled,
      h.value_settled_input hschedule hsize haccepts ha]
  case registers =>
    intro eq heq hop
    obtain ⟨r, hr, operand, -, hfind, -⟩ := h.register_at heq hop
    refine ⟨_, (peek?_eq_some_iff hfits.circuit_eq limit).2 ⟨_, hfind, rfl⟩, ?_⟩
    rw [Scope.valuation_of_find hfind, hsettled,
      h.value_settled_register hschedule hsize haccepts (List.mem_map_of_mem hr)]
  case equations =>
    intro k eq heq hop
    obtain ⟨part, gate, hpart, hgate, hvalue⟩ := h.value_settled_target hschedule hsize
      (State.memories rom sim.state.ram) assignments heq hop
    obtain ⟨eq', heq', hfind, -, hwidth, -⟩ := h.elaborates hpart
    rw [heq] at heq'
    cases heq'
    refine ⟨part.width, (width?_eq_some_iff h.size_le).2 ⟨_, hfind, hwidth.symm⟩, ?_⟩
    rw [Scope.valuation_of_find hfind, ← h.toNat_eval hfits.ram_fits hcarries heq hpart hgate,
      hsettled, hvalue]
  case outputs =>
    rw [hfits.circuit_eq, Simulator.outputs, List.map_map]
    refine (map_eq_of_forall₂ h.outputs_attached ?_).symm
    rintro name pin ⟨hname, hfind, -⟩
    rw [Scope.valuation_of_find hfind, Function.comp_apply, hname]
  case registers_after =>
    intro eq heq hop
    obtain ⟨r, hr, operand, hargs, hfind, hresolves⟩ := h.register_at heq hop
    refine ⟨operand, _, hargs, (peek?_eq_some_iff hcircuit limit).2 ⟨_, hfind, rfl⟩, ?_⟩
    rw [hnets, h.toNat_committed_register hcarries hr hresolves]
  case nets_after =>
    intro decl hdecl hother
    obtain ⟨id, hfind⟩ : ∃ id, (d.scope limit).find decl.name = .ok id :=
      (mem_names_iff_find h.size_le).1 (List.mem_map_of_mem hdecl)
    refine ⟨_, (peek?_eq_some_iff hcircuit limit).2 ⟨id, hfind, rfl⟩, ?_⟩
    rw [hnets, h.value_committed_other hfind hother, Scope.valuation_of_find hfind]
  case rams_after =>
    intro k eq heq hop
    rw [hram]
    exact h.toNat_read_written hfits.ram_fits hcarries heq hop

end Checked

/-- Compilation and simulation do what the description says: every accepted step of a simulation of a
    compiled description, after whatever calls, is explained by values of its nets. -/
theorem exists_explains_of_step {d : Description} {config : Config} {c : Circuit}
    (h : d.compile config = .ok c) (rom : RomStore) (settings : Config) (sequence : List Call)
    (vector : InputVector) {output : OutputVector} {sim' : Simulator}
    (hok : ((Simulator.create c rom settings).calls sequence).step vector = .ok (output, sim')) :
    ∃ V, d.Explains rom vector ((Simulator.create c rom settings).calls sequence) sim' output V := by
  obtain ⟨inputs, outputs, parts, schedule, hchecked, hschedule, rfl⟩ := compile_eq_ok_iff.1 h
  exact hchecked.explains hschedule (hchecked.fits_calls rom settings sequence) hok

/-- A step of the keeper after a step and a refused call is explained by values of its nets. -/
theorem exists_explains_keeper :
    ∃ c output sim', keeper.compile .standard = .ok c ∧
      ((Simulator.create c (RomStore.ofCircuit c .standard) .standard).calls
        [.step (.ofList [("set", 1)]), .step .empty]).step (.ofList [("set", 0)]) =
        .ok (output, sim') ∧
      ∃ V, keeper.Explains (RomStore.ofCircuit c .standard) (.ofList [("set", 0)])
        ((Simulator.create c (RomStore.ofCircuit c .standard) .standard).calls
          [.step (.ofList [("set", 1)]), .step .empty]) sim' output V := by
  obtain ⟨c, hc⟩ := exists_eq_ok_of_isOk (x := keeper.compile .standard) (by decide +kernel)
  have hstep : (match keeper.compile .standard with
      | .ok c => (((Simulator.create c (RomStore.ofCircuit c .standard) .standard).calls
          [.step (.ofList [("set", 1)]), .step .empty]).step (.ofList [("set", 0)])).isOk
      | .error _ => false) = true := by
    decide +kernel
  rw [hc] at hstep
  obtain ⟨⟨output, sim'⟩, hok⟩ := exists_eq_ok_of_isOk hstep
  exact ⟨c, output, sim', hc, hok, exists_explains_of_step hc _ _ _ _ hok⟩

end Description

end Netlist
