/-
Module: Netlist.Proofs.Snapshot
Layer: Proofs
Purpose: What a snapshot tells. A snapshot lists the register and RAM equations of a description in order,
  with the values of the registers and the cells of the memories. It is the whole of what a simulation
  carries from step to step: two simulations of a circuit that give the same snapshot answer every run
  alike and give the same snapshot after it, whatever was called on them before.
Imports: Netlist.Proofs.Agreement, Netlist.Proofs.Listing
Main exports: Description.Simulated.snapshot_eq, Description.Agrees.snapshot_perm,
  Description.agrees_of_snapshot_eq, Description.run_eq_of_snapshot_eq
-/
import Netlist.Proofs.Agreement
import Netlist.Proofs.Listing

namespace Netlist

/-!
### The equations of one operation
-/

/-- What a list gives at selected entries, and another list, related to it entry by entry, at the same
    ones. -/
theorem map_filter_eq_map_filterMap {α β γ δ : Type} {R : α → β → Prop} {as : List α} {bs : List β}
    {p : α → Bool} {f : α → γ} {g : β → Option δ} {e : δ → γ} (h : List.Forall₂ R as bs)
    (hselected : ∀ a b, R a b → p a = (g b).isSome)
    (hsame : ∀ a b x, R a b → g b = some x → f a = e x) :
    (as.filter p).map f = (bs.filterMap g).map e := by
  induction h with
  | nil => rfl
  | @cons a b as bs hab _ ih =>
      have hp := hselected a b hab
      cases hg : g b with
      | none =>
          rw [hg] at hp
          rw [List.filter_cons_of_neg (by simp [hp]), List.filterMap_cons_none hg, ih]
      | some x =>
          rw [hg] at hp
          rw [List.filter_cons_of_pos hp, List.filterMap_cons_some hg, List.map_cons, List.map_cons, ih,
            hsame a b x hab hg]

/-- The operation of an equation decides which kind of block its part has. -/
theorem Equation.kind_part {scope : Scope} {eq : Equation} {part : Part}
    (h : eq.part scope = .ok part) :
    (eq.op == .reg) = part.register?.isSome ∧ (eq.op == .rom) = part.romBlock?.isSome ∧
      (eq.op == .ram) = part.ramBlock?.isSome := by
  obtain ⟨-, -, -, helem⟩ := part_eq_ok_iff.1 h
  obtain ⟨hreg, hrom, hram⟩ := helem.kind
  rcases part with ⟨name, target, width, element⟩
  refine ⟨?_, ?_, ?_⟩
  · rw [Bool.eq_iff_iff, beq_iff_eq, hreg]
    cases element <;> simp [Part.register?]
  · rw [Bool.eq_iff_iff, beq_iff_eq, hrom]
    cases element <;> simp [Part.romBlock?]
  · rw [Bool.eq_iff_iff, beq_iff_eq, hram]
    cases element <;> simp [Part.ramBlock?]

namespace Description

/-- The equations of an operation. -/
def equationsOf (d : Description) (op : Op) : List Equation :=
  d.equations.filter (fun eq => eq.op == op)

variable {d d' : Description} {limit : Nat} {sim sim' : Simulator}

theorem mem_equationsOf_iff {op : Op} {eq : Equation} :
    eq ∈ d.equationsOf op ↔ eq ∈ d.equations ∧ eq.op = op := by
  rw [equationsOf, List.mem_filter, beq_iff_eq]

/-- Memory blocks are numbered in the order of the equations of their operation. -/
theorem WellFormed.blockOf_of_getElem? (h : d.WellFormed limit) {op : Op} {b : Nat} {eq : Equation}
    (heq : (d.equationsOf op)[b]? = some eq) : d.blockOf eq = b := by
  obtain ⟨hmem, hop⟩ := mem_equationsOf_iff.1 (List.mem_of_getElem? heq)
  obtain ⟨k, hk⟩ := List.mem_iff_getElem?.1 hmem
  have hnodup : (d.equationsOf op).Nodup := h.targets_nodup.of_map.filter _
  have hget : (d.equationsOf op)[d.block op k]? = some eq := by
    have hguard : Option.guard (fun eq : Equation => eq.op == op) eq = some eq := by
      simp [Option.guard, hop]
    have hfound := getElem?_filterMap_take hk hguard
    rwa [List.filterMap_eq_filter, ← List.countP_eq_length_filter] at hfound
  rw [h.blockOf_eq hk hop]
  exact (List.getElem?_inj (List.getElem?_eq_some_iff.1 hget).1 hnodup).1 (hget.trans heq.symm)

theorem WellFormed.getElem?_blockOf (h : d.WellFormed limit) {op : Op} {eq : Equation}
    (heq : eq ∈ d.equationsOf op) : (d.equationsOf op)[d.blockOf eq]? = some eq := by
  obtain ⟨b, hb⟩ := List.mem_iff_getElem?.1 heq
  rw [h.blockOf_of_getElem? hb, hb]

/-!
### Snapshots by equations
-/

namespace Simulated

/-- A snapshot lists the registers in the order of their equations. -/
theorem snapshot_registers (h : d.Simulated limit sim) : sim.snapshot.registers =
    (d.equationsOf .reg).map (fun eq => (eq.target, (sim.peek? eq.target).getD 0)) := by
  obtain ⟨inputs, outputs, parts, schedule, hchecked, -, hfits⟩ := h
  rw [Simulator.snapshot, hfits.circuit_eq]
  refine (map_filter_eq_map_filterMap hchecked.parts_checked
    (fun _ _ hpart => (Equation.kind_part hpart).1) ?_).symm
  intro eq part r hpart hr
  obtain ⟨hfind, -, -, -⟩ := Equation.part_eq_ok_iff.1 hpart
  rw [← (Part.register?_eq_some hr).1] at hfind
  rw [hchecked.netName_eq hfind, (peek?_eq_some_iff hfits.circuit_eq limit).2 ⟨_, hfind, rfl⟩]
  rfl

/-- A snapshot lists the memories in the order of their equations. -/
theorem snapshot_rams (h : d.Simulated limit sim) : sim.snapshot.rams =
    (d.equationsOf .ram).map (fun eq => (eq.target, sim.state.ram.nonZero (d.blockOf eq))) := by
  have hwell := h.wellFormed
  obtain ⟨inputs, outputs, parts, schedule, hchecked, -, hfits⟩ := h
  have hnames : (parts.filterMap Part.ramBlock?).map RamBlock.name =
      (d.equationsOf .ram).map Equation.target := by
    refine (map_filter_eq_map_filterMap hchecked.parts_checked
      (fun _ _ hpart => (Equation.kind_part hpart).2.2) ?_).symm
    intro eq part block hpart hblock
    obtain ⟨-, hname, -, -⟩ := Equation.part_eq_ok_iff.1 hpart
    rw [Part.name_of_ramBlock? hblock, hname]
  rw [Simulator.snapshot, hfits.circuit_eq]
  calc (parts.filterMap Part.ramBlock?).zipIdx.map (fun e => (e.1.name, sim.state.ram.nonZero e.2))
      = ((parts.filterMap Part.ramBlock?).map RamBlock.name).zipIdx.map
          (fun e => (e.1, sim.state.ram.nonZero e.2)) := by
        rw [List.zipIdx_map, List.map_map]
        rfl
    _ = (d.equationsOf .ram).zipIdx.map (fun e => (e.1.target, sim.state.ram.nonZero e.2)) := by
        rw [hnames, List.zipIdx_map, List.map_map]
        rfl
    _ = (d.equationsOf .ram).zipIdx.map
          ((fun eq => (eq.target, sim.state.ram.nonZero (d.blockOf eq))) ∘ Prod.fst) := by
        refine List.map_congr_left (fun e he => ?_)
        rw [Function.comp_apply, hwell.blockOf_of_getElem? (List.mem_zipIdx_iff_getElem?.1 he)]
    _ = (d.equationsOf .ram).map
          (fun eq => (eq.target, sim.state.ram.nonZero (d.blockOf eq))) := by
        rw [← List.map_map, List.zipIdx_map_fst]

theorem ram_at (h : d.Simulated limit sim) {eq : Equation} (heq : eq ∈ d.equations)
    (hop : eq.op = .ram) :
    ∃ rams block, sim.state.ram.Fits rams ∧ rams[d.blockOf eq]? = some block := by
  have hwell := h.wellFormed
  obtain ⟨inputs, outputs, parts, schedule, hchecked, -, hfits⟩ := h
  obtain ⟨k, hk⟩ := List.mem_iff_getElem?.1 heq
  obtain ⟨_, _, _, _, block, -, hblock, -⟩ := hchecked.ram_at hk hop
  exact ⟨_, block, hfits.ram_fits, hwell.blockOf_eq hk hop ▸ hblock⟩

/-- Two simulations list the same cells of a memory exactly when they read the same words there. -/
theorem nonZero_eq_iff (h : d.Simulated limit sim) (h' : d'.Simulated limit sim') {eq : Equation}
    (heq : eq ∈ d.equations) (heq' : eq ∈ d'.equations) (hop : eq.op = .ram) :
    sim.state.ram.nonZero (d.blockOf eq) = sim'.state.ram.nonZero (d'.blockOf eq) ↔
      ∀ a, sim.state.ram.read (d.blockOf eq) a = sim'.state.ram.read (d'.blockOf eq) a := by
  obtain ⟨rams, block, hram, hblock⟩ := h.ram_at heq hop
  obtain ⟨rams', block', hram', hblock'⟩ := h'.ram_at heq' hop
  exact hram.nonZero_eq_iff hram' hblock hblock'

end Simulated

/-!
### Snapshots and agreement
-/

/-- Agreeing simulations have the same entries for an equation in their snapshots. -/
theorem Agrees.entries_eq (h : d.Agrees d' sim sim') (hd : d.Reordered d')
    (hsim : d.Simulated limit sim) (hsim' : d'.Simulated limit sim') :
    sim'.snapshot.registers =
      (d'.equationsOf .reg).map (fun eq => (eq.target, (sim.peek? eq.target).getD 0)) ∧
    sim'.snapshot.rams =
      (d'.equationsOf .ram).map (fun eq => (eq.target, sim.state.ram.nonZero (d.blockOf eq))) := by
  rw [hsim'.snapshot_registers, hsim'.snapshot_rams]
  refine ⟨List.map_congr_left (fun eq heq => ?_), List.map_congr_left (fun eq heq => ?_)⟩
  · obtain ⟨hmem, hop⟩ := mem_equationsOf_iff.1 heq
    rw [h.registers eq (hd.equations.mem_iff.2 hmem) hop]
  · obtain ⟨hmem', hop⟩ := mem_equationsOf_iff.1 heq
    have hmem := hd.equations.mem_iff.2 hmem'
    rw [(hsim.nonZero_eq_iff hsim' hmem hmem' hop).2 (h.rams eq hmem hop)]

/-- Agreeing simulations of one description give the same snapshot. -/
theorem Agrees.snapshot_eq (h : d.Agrees d sim sim') (hsim : d.Simulated limit sim)
    (hsim' : d.Simulated limit sim') : sim.snapshot = sim'.snapshot := by
  obtain ⟨hregisters, hrams⟩ := h.entries_eq (.refl d) hsim hsim'
  rw [← hsim.snapshot_registers] at hregisters
  rw [← hsim.snapshot_rams] at hrams
  calc sim.snapshot = ⟨sim.snapshot.registers, sim.snapshot.rams⟩ := rfl
    _ = ⟨sim'.snapshot.registers, sim'.snapshot.rams⟩ := by rw [hregisters, hrams]

/-- Agreeing simulations list the same registers and memories, each in its own order. -/
theorem Agrees.snapshot_perm (h : d.Agrees d' sim sim') (hd : d.Reordered d')
    (hsim : d.Simulated limit sim) (hsim' : d'.Simulated limit sim') :
    sim.snapshot.registers.Perm sim'.snapshot.registers ∧
      sim.snapshot.rams.Perm sim'.snapshot.rams := by
  obtain ⟨hregisters, hrams⟩ := h.entries_eq hd hsim hsim'
  rw [hregisters, hrams, hsim.snapshot_registers, hsim.snapshot_rams]
  exact ⟨(hd.equations.filter _).map _, (hd.equations.filter _).map _⟩

/-- Simulations of one description with the same ROM contents agree when they give the same snapshot. -/
theorem agrees_of_snapshot_eq (hsim : d.Simulated limit sim) (hsim' : d.Simulated limit sim')
    (hrom : sim.rom = sim'.rom) (hsame : sim.snapshot = sim'.snapshot) : d.Agrees d sim sim' := by
  constructor
  case roms =>
    intro eq heq hop a
    rw [hrom]
  case registers =>
    intro eq heq hop
    have hlist := congrArg Snapshot.registers hsame
    rw [hsim.snapshot_registers, hsim'.snapshot_registers, List.map_inj_left] at hlist
    have hvalue := (Prod.mk.inj (hlist eq (mem_equationsOf_iff.2 ⟨heq, hop⟩))).2
    have hdeclared := hsim.wellFormed.targets_declared eq heq
    obtain ⟨v, hv⟩ := Option.isSome_iff_exists.1 (hsim.isSome_peek?_iff.2 hdeclared)
    obtain ⟨v', hv'⟩ := Option.isSome_iff_exists.1 (hsim'.isSome_peek?_iff.2 hdeclared)
    rw [hv, hv'] at hvalue ⊢
    exact congrArg some hvalue
  case rams =>
    intro eq heq hop
    have hlist := congrArg Snapshot.rams hsame
    rw [hsim.snapshot_rams, hsim'.snapshot_rams, List.map_inj_left] at hlist
    have hcells := (Prod.mk.inj (hlist eq (mem_equationsOf_iff.2 ⟨heq, hop⟩))).2
    exact (hsim.nonZero_eq_iff hsim' heq heq hop).1 hcells

/-- A snapshot is the whole state. When two simulations of a compiled description with the same ROM
    contents give the same snapshot, whatever was called on each before, every run gives the same outputs
    or the same refusal on both, they give the same snapshot after it, and once a step has been accepted
    all nets show the same values. -/
theorem run_eq_of_snapshot_eq {d : Description} {config : Config} {c : Circuit}
    (h : d.compile config = .ok c) (rom : RomStore) (settings settings' : Config)
    (sequence sequence' : List Call) :
    let sim := (Simulator.create c rom settings).calls sequence
    let sim' := (Simulator.create c rom settings').calls sequence'
    sim.snapshot = sim'.snapshot → ∀ vectors,
      (sim.run vectors).1 = (sim'.run vectors).1 ∧
      (sim.run vectors).2.snapshot = (sim'.run vectors).2.snapshot ∧
      (0 < sim.accepted vectors → ∀ name,
        (sim.run vectors).2.peek? name = (sim'.run vectors).2.peek? name) := by
  intro sim sim' hsame vectors
  obtain ⟨hsim, hrom⟩ := simulated_calls h rom settings sequence
  obtain ⟨hsim', hrom'⟩ := simulated_calls h rom settings' sequence'
  have hagrees := agrees_of_snapshot_eq hsim hsim' (hrom.trans hrom'.symm) hsame
  obtain ⟨hresult, hafter, hpeek⟩ := hagrees.run (.refl d) hsim hsim' vectors
  exact ⟨hresult, hafter.snapshot_eq (hsim.run vectors) (hsim'.run vectors),
    fun haccepted => hpeek (.inl haccepted)⟩

/-- After a step that sets a cell, and after three steps of which the second sets it, the keeper gives the
    same snapshot. Its nets carry different values, but later runs cannot tell. -/
theorem run_eq_of_snapshot_eq_keeper : ∃ c, keeper.compile .standard = .ok c ∧
    let rom := RomStore.ofCircuit c .standard
    let sim := (Simulator.create c rom .standard).calls [.step (.ofList [("set", 1)])]
    let sim' := (Simulator.create c rom .standard).calls [.run [.ofList [("set", 0)],
      .ofList [("set", 1)], .ofList [("set", 0)], .empty]]
    sim.snapshot = sim'.snapshot ∧ sim.peek? "set" ≠ sim'.peek? "set" ∧
      (sim.run [.ofList [("set", 1)], .empty]).1 = (sim'.run [.ofList [("set", 1)], .empty]).1 ∧
      ∀ name, (sim.run [.ofList [("set", 1)], .empty]).2.peek? name =
        (sim'.run [.ofList [("set", 1)], .empty]).2.peek? name := by
  obtain ⟨c, hc⟩ := exists_eq_ok_of_isOk (x := keeper.compile .standard) (by decide +kernel)
  have hkeeper : (match keeper.compile .standard with
      | .ok c =>
        let rom := RomStore.ofCircuit c .standard
        let sim := (Simulator.create c rom .standard).calls [.step (.ofList [("set", 1)])]
        let sim' := (Simulator.create c rom .standard).calls [.run [.ofList [("set", 0)],
          .ofList [("set", 1)], .ofList [("set", 0)], .empty]]
        decide (sim.snapshot = sim'.snapshot) && decide (sim.peek? "set" ≠ sim'.peek? "set") &&
          decide (0 < sim.accepted [.ofList [("set", 1)], .empty])
      | .error _ => false) = true := by
    decide +kernel
  rw [hc] at hkeeper
  simp only [Bool.and_eq_true, decide_eq_true_iff] at hkeeper
  obtain ⟨⟨hsame, hdiffer⟩, haccepted⟩ := hkeeper
  obtain ⟨hresult, -, hpeek⟩ := run_eq_of_snapshot_eq hc _ _ _ _ _ hsame
    [.ofList [("set", 1)], .empty]
  exact ⟨c, hc, hsame, hdiffer, hresult, hpeek haccepted⟩

end Description

end Netlist
