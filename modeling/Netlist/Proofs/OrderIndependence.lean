/-
Module: Netlist.Proofs.OrderIndependence
Layer: Proofs
Purpose: The order of declarations and equations does not matter. Reordering a description changes the
  numbers of its nets, gates and memory blocks and the order in which gates settle, but nothing that can be
  observed by name: it compiles exactly when the original does, takes the same ROM images, answers every
  run alike, and shows the same nets, registers and memories.
Imports: Netlist.Proofs.Rom.Agreement, Netlist.Proofs.Snapshot
Main exports: Equation.romBlock, Description.Checked.roms_eq, Description.agrees_create,
  Description.reordered_behaves_alike
-/
import Netlist.Proofs.Rom.Agreement
import Netlist.Proofs.Snapshot

namespace Netlist

/-- The ROM block that a ROM equation asks for. -/
def Equation.romBlock (eq : Equation) : RomBlock :=
  match eq.params with
  | [addrWidth, wordWidth] => ⟨eq.target, addrWidth.toNat, wordWidth.toNat⟩
  | _ => ⟨eq.target, 0, 0⟩

/-- An empty store reads the default word. -/
theorem RomStore.read_ofCircuit (c : Circuit) (settings : Config) (number : Nat) (address : Word) :
    (ofCircuit c settings).read number address = settings.defaultWord := by
  rw [read]
  split
  · next contents hcontents =>
      simp only [ofCircuit, List.getElem?_toArray, List.getElem?_map, Option.map_eq_some_iff] at hcontents
      obtain ⟨block, -, rfl⟩ := hcontents
      rfl
  · rfl

/-- Cleared memories read zero. -/
theorem RamStore.read_ofCircuit (c : Circuit) (number : Nat) (address : Word) :
    (ofCircuit c).read number address = 0 := by
  rw [read]
  split
  · next cells hcells =>
      simp only [ofCircuit, List.getElem?_toArray, List.getElem?_map, Option.map_eq_some_iff] at hcells
      obtain ⟨block, -, rfl⟩ := hcells
      exact Cells.read_blank block.addrWidth address
  · rfl

namespace Description

variable {d d' : Description} {config : Config} {c c' : Circuit}

/-!
### ROM blocks
-/

/-- The ROM blocks of a description are those of its ROM equations, in order. -/
theorem roms_of_compile (h : d.compile config = .ok c) :
    c.roms = (d.equationsOf .rom).map Equation.romBlock := by
  obtain ⟨inputs, outputs, parts, schedule, hchecked, -, rfl⟩ := compile_eq_ok_iff.1 h
  refine (List.map_id _).symm.trans (map_filter_eq_map_filterMap hchecked.parts_checked
    (fun _ _ hpart => (Equation.kind_part hpart).2.1) ?_).symm
  intro eq part block hpart hblock
  obtain ⟨-, hname, -, helem⟩ := Equation.part_eq_ok_iff.1 hpart
  obtain ⟨hblockName, addr, helement⟩ := Part.romBlock?_eq_some hblock
  rcases block with ⟨name, addrWidth, wordWidth⟩
  rw [helement] at helem
  cases hblockName.trans hname
  cases helem
  rfl

theorem romNames_of_compile (h : d.compile config = .ok c) : (c.roms.map RomBlock.name).Nodup := by
  obtain ⟨inputs, outputs, parts, schedule, hchecked, -, rfl⟩ := compile_eq_ok_iff.1 h
  exact hchecked.romNames_nodup

/-- The empty stores of a description and of a reordering match. -/
theorem matches_ofCircuit (hd : d.Reordered d') (h : d.compile config = .ok c)
    (h' : d'.compile config = .ok c') (settings : Config) :
    (RomStore.ofCircuit c settings).Matches (RomStore.ofCircuit c' settings) where
  roms := by
    rw [RomStore.roms_ofCircuit, RomStore.roms_ofCircuit, roms_of_compile h, roms_of_compile h']
    exact (hd.equations.filter _).map _
  names := by
    rw [RomStore.roms_ofCircuit]
    exact romNames_of_compile h
  defaultWord_eq := rfl
  strict_eq := rfl
  read_eq := by
    intro number number' block _ _ address
    rw [RomStore.read_ofCircuit, RomStore.read_ofCircuit]

/-!
### Power-on
-/

namespace Checked

variable {limit : Nat} {inputs outputs : List Pin} {parts : List Part} {schedule : List Nat}
  (h : d.Checked limit inputs outputs parts)

include h

/-- At power-on a register has its initial value. -/
theorem peek?_create_register (rom : RomStore) (settings : Config) {eq : Equation}
    (heq : eq ∈ d.equations) (hop : eq.op = .reg) :
    (Simulator.create (d.circuit inputs outputs parts schedule) rom settings).peek? eq.target =
      some (eq.init.getD 0) := by
  obtain ⟨k, hk⟩ := List.mem_iff_getElem?.1 heq
  obtain ⟨part, hpart, hfind, -, -, helem⟩ := h.part hk
  obtain ⟨next, init, helement⟩ := helem.kind.1.1 hop
  rw [helement] at helem
  obtain ⟨-, -, -, -, hinit, -⟩ := helem.register_inv
  have hr : ⟨part.target, next, part.width, init⟩ ∈ parts.filterMap Part.register? :=
    List.mem_filterMap.2 ⟨part, List.mem_of_getElem? hpart, by rw [Part.register?, helement]⟩
  refine (peek?_eq_some_iff rfl limit).2 ⟨_, hfind, ?_⟩
  rw [← hinit]
  refine NetTable.value_assignAll_of_mem h.nodup.of_append_right.of_append_right hr ?_
  rw [State.blank, Array.size_replicate]
  exact h.proper.index_lt hfind

/-- At power-on every net that is no register is zero. -/
theorem peek?_create_other (rom : RomStore) (settings : Config) {name : String}
    (hname : name ∈ d.nets.map NetDecl.name)
    (hother : ∀ eq ∈ d.equations, eq.target = name → eq.op ≠ .reg) :
    (Simulator.create (d.circuit inputs outputs parts schedule) rom settings).peek? name = some 0 := by
  obtain ⟨id, hfind⟩ : ∃ id, (d.scope limit).find name = .ok id :=
    (mem_names_iff_find h.size_le).1 hname
  refine (peek?_eq_some_iff rfl limit).2 ⟨id, hfind, ?_⟩
  refine (NetTable.value_assignAll_of_not_mem ?_).trans ?_
  · intro hmem
    obtain ⟨r, hr, rfl⟩ := List.mem_map.1 hmem
    obtain ⟨eq, heq, operand, hop, -, hfind', -⟩ := h.register hr
    exact hother eq heq (h.proper.find_inj hfind' hfind) hop
  · have hlt : id.index < (d.circuit inputs outputs parts schedule).nets.size := h.proper.index_lt hfind
    simp [State.blank, NetTable.value, hlt]

end Checked

/-- At power-on a net shows the same value in a description and in a reordering. -/
theorem peek?_create_eq (hd : d.Reordered d') (h : d.compile config = .ok c)
    (h' : d'.compile config = .ok c') (rom rom' : RomStore) (settings : Config) (name : String) :
    (Simulator.create c rom settings).peek? name = (Simulator.create c' rom' settings).peek? name := by
  obtain ⟨hsim, -⟩ := simulated_calls h rom settings []
  obtain ⟨hsim', -⟩ := simulated_calls h' rom' settings []
  obtain ⟨inputs, outputs, parts, schedule, hchecked, -, rfl⟩ := compile_eq_ok_iff.1 h
  obtain ⟨inputs', outputs', parts', schedule', hchecked', -, rfl⟩ := compile_eq_ok_iff.1 h'
  by_cases hname : name ∈ d.nets.map NetDecl.name
  · by_cases hregister : ∃ eq ∈ d.equations, eq.target = name ∧ eq.op = .reg
    · obtain ⟨eq, heq, rfl, hop⟩ := hregister
      rw [hchecked.peek?_create_register rom settings heq hop,
        hchecked'.peek?_create_register rom' settings (hd.equations.mem_iff.1 heq) hop]
    · simp only [not_exists, not_and] at hregister
      rw [hchecked.peek?_create_other rom settings hname hregister,
        hchecked'.peek?_create_other rom' settings (hd.mem_names_iff.1 hname)
          (fun eq heq => hregister eq (hd.equations.mem_iff.2 heq))]
  · exact (hsim.peek?_eq_none hname).trans
      (hsim'.peek?_eq_none (fun hname' => hname (hd.mem_names_iff.2 hname'))).symm

/-- A description and a reordering agree at power-on, if their ROM contents match. -/
theorem agrees_create (hd : d.Reordered d') (h : d.compile config = .ok c)
    (h' : d'.compile config = .ok c') {rom rom' : RomStore} (hrom : rom.Matches rom')
    (hroms : rom.roms = c.roms) (hroms' : rom'.roms = c'.roms) (settings : Config) :
    d.Agrees d' (Simulator.create c rom settings) (Simulator.create c' rom' settings) where
  roms := by
    intro eq heq hop a
    have hwell := (simulated_calls h rom settings []).1.wellFormed
    have hwell' := (simulated_calls h' rom' settings []).1.wellFormed
    have hblock : rom.roms[d.blockOf eq]? = some eq.romBlock := by
      rw [hroms, roms_of_compile h, List.getElem?_map,
        hwell.getElem?_blockOf (mem_equationsOf_iff.2 ⟨heq, hop⟩)]
      rfl
    have hblock' : rom'.roms[d'.blockOf eq]? = some eq.romBlock := by
      rw [hroms', roms_of_compile h', List.getElem?_map,
        hwell'.getElem?_blockOf (mem_equationsOf_iff.2 ⟨hd.equations.mem_iff.1 heq, hop⟩)]
      rfl
    exact hrom.read_eq hblock hblock' a
  registers := fun eq _ _ => peek?_create_eq hd h h' rom rom' settings eq.target
  rams := by
    intro eq heq hop a
    exact (RamStore.read_ofCircuit c _ a).trans (RamStore.read_ofCircuit c' _ a).symm

/-- Order does not matter. A description and a reordering of it both compile or neither does. When they
    do, their empty stores take the same images and refuse the others for the same reason, and with them
    simulations give the same results for every run, show the same value at every net after it, and list
    the same registers and the same memories, in the order of the equations of each. -/
theorem reordered_behaves_alike {d d' : Description} (hd : d.Reordered d') (config : Config) :
    ((∃ c, d.compile config = .ok c) ↔ ∃ c', d'.compile config = .ok c') ∧
    ∀ c c', d.compile config = .ok c → d'.compile config = .ok c' →
      ∀ (settings : Config) (image : RomImage),
        let store := RomStore.ofCircuit c settings
        let store' := RomStore.ofCircuit c' settings
        (store.load image).map (fun _ => ()) = (store'.load image).map (fun _ => ()) ∧
        ∀ vectors,
          let sim := (Simulator.create c (store.call (.load image)) settings).run vectors
          let sim' := (Simulator.create c' (store'.call (.load image)) settings).run vectors
          sim.1 = sim'.1 ∧ (∀ name, sim.2.peek? name = sim'.2.peek? name) ∧
            sim.2.snapshot.registers.Perm sim'.2.snapshot.registers ∧
            sim.2.snapshot.rams.Perm sim'.2.snapshot.rams := by
  refine ⟨⟨hd.exists_compile, hd.symm.exists_compile⟩, ?_⟩
  intro c c' h h' settings image store store'
  obtain ⟨houtcome, hmatches⟩ := (matches_ofCircuit hd h h' settings).call_load image
  refine ⟨houtcome, fun vectors => ?_⟩
  have hroms := (store.call_alike (.load image)).roms_eq.trans (RomStore.roms_ofCircuit c settings)
  have hroms' := (store'.call_alike (.load image)).roms_eq.trans (RomStore.roms_ofCircuit c' settings)
  have hagrees := agrees_create hd h h' hmatches hroms hroms' settings
  obtain ⟨hsim, -⟩ := simulated_calls h (store.call (.load image)) settings []
  obtain ⟨hsim', -⟩ := simulated_calls h' (store'.call (.load image)) settings []
  obtain ⟨hresult, hafter, hpeek⟩ := hagrees.run hd hsim hsim' vectors
  exact ⟨hresult, hpeek (.inr (peek?_create_eq hd h h' _ _ settings)),
    hafter.snapshot_perm hd (hsim.run vectors) (hsim'.run vectors)⟩

/-- A description with its nets and equations listed backwards. -/
def reversed (d : Description) : Description :=
  { d with nets := d.nets.reverse, equations := d.equations.reverse }

theorem reordered_reversed (d : Description) : d.Reordered d.reversed :=
  ⟨rfl, rfl, rfl, (List.reverse_perm d.nets).symm, (List.reverse_perm d.equations).symm⟩

/-- Two registers in a row, two memories that they address and two tables behind the memories. -/
def pair : Description where
  name := "pair"
  inputs := ["in"]
  outputs := ["low", "high"]
  nets := [⟨"in", 1⟩, ⟨"first", 1⟩, ⟨"second", 1⟩, ⟨"left", 1⟩, ⟨"right", 1⟩, ⟨"low", 2⟩, ⟨"high", 3⟩]
  equations := [
    { target := "first", op := .reg, args := [.net "in"], init := some 1 },
    { target := "second", op := .reg, args := [.net "first"] },
    { target := "left", op := .ram,
      args := [.net "first", .const 1 none, .net "second", .net "in"], params := [1, 1] },
    { target := "right", op := .ram,
      args := [.net "second", .net "in", .net "first", .net "in"], params := [1, 1] },
    { target := "low", op := .rom, args := [.net "left"], params := [1, 2] },
    { target := "high", op := .rom, args := [.net "right"], params := [1, 3] }]

/-- The pair and the pair backwards fill their tables from the same image and then run alike, although
    they number everything differently and list their memories in opposite orders. -/
theorem reversed_pair_behaves_alike : pair.Reordered pair.reversed ∧
    ∃ c c', pair.compile .standard = .ok c ∧ pair.reversed.compile .standard = .ok c' ∧
      let rom := (RomStore.ofCircuit c .standard).call (.load ⟨[5, 6, 1, 2], false⟩)
      let rom' := (RomStore.ofCircuit c' .standard).call (.load ⟨[5, 6, 1, 2], false⟩)
      let vectors : List InputVector :=
        [.ofList [("in", 1)], .ofList [("in", 1)], .ofList [("in", 0)], .ofList [("in", 1)]]
      let sim := (Simulator.create c rom .standard).run vectors
      let sim' := (Simulator.create c' rom' .standard).run vectors
      sim.2.snapshot.rams ≠ sim'.2.snapshot.rams ∧ sim.1 = sim'.1 ∧
        (∀ name, sim.2.peek? name = sim'.2.peek? name) ∧
        sim.2.snapshot.registers.Perm sim'.2.snapshot.registers ∧
        sim.2.snapshot.rams.Perm sim'.2.snapshot.rams := by
  have hd := reordered_reversed pair
  obtain ⟨c, hc⟩ := exists_eq_ok_of_isOk (x := pair.compile .standard) (by decide +kernel)
  obtain ⟨hcompiles, halike⟩ := reordered_behaves_alike hd .standard
  obtain ⟨c', hc'⟩ := hcompiles.1 ⟨c, hc⟩
  have hdiffer : (match pair.compile .standard with
      | .ok c =>
        match pair.reversed.compile .standard with
        | .ok c' =>
          let rom := (RomStore.ofCircuit c .standard).call (.load ⟨[5, 6, 1, 2], false⟩)
          let rom' := (RomStore.ofCircuit c' .standard).call (.load ⟨[5, 6, 1, 2], false⟩)
          let vectors : List InputVector :=
            [.ofList [("in", 1)], .ofList [("in", 1)], .ofList [("in", 0)], .ofList [("in", 1)]]
          decide (((Simulator.create c rom .standard).run vectors).2.snapshot.rams ≠
            ((Simulator.create c' rom' .standard).run vectors).2.snapshot.rams)
        | .error _ => false
      | .error _ => false) = true := by
    decide +kernel
  rw [hc, hc'] at hdiffer
  exact ⟨hd, c, c', hc, hc', of_decide_eq_true hdiffer,
    (halike c c' hc hc' .standard ⟨[5, 6, 1, 2], false⟩).2 _⟩

end Description

end Netlist
