/-
Module: Netlist.Proofs.Representation
Layer: Proofs
Purpose: What every compiled circuit satisfies. All positions, gates and block numbers that it holds are
  in range, every gate has the operands that its kind reads, shifts stay below the width of a word, the
  schedule visits every gate once and after the gates it reads, and every net is driven once, by an input
  pin, a gate or a register.
Imports: Netlist.Proofs.Assembly
Main exports: Source.InRange, GateKind.arity, GateKind.Bounded, Gate.InRange, Circuit.Sound,
  Description.Checked.sound, Description.sound_of_compile
-/
import Netlist.Proofs.Assembly

namespace Netlist

/-- A net that an operand reads is one of `size` nets. -/
def Source.InRange (size : Nat) (s : Source) : Prop :=
  ∀ id, s = .net id → id.index < size

/-- How many operands a kind of gate reads. -/
def GateKind.arity : GateKind → Nat
  | .copy | .not | .bits _ | .romRead _ | .ramRead _ => 1
  | .and | .or | .xor | .nand | .nxor | .concat _ => 2
  | .mux => 3

/-- Shifts stay below the width of a word, and blocks are among the given numbers of blocks. -/
def GateKind.Bounded (roms rams : Nat) : GateKind → Prop
  | .concat lowWidth => lowWidth < Word.maxWidth
  | .bits low => low < Word.maxWidth
  | .romRead block => block < roms
  | .ramRead block => block < rams
  | _ => True

/-- A gate refers to nets and blocks of a circuit, and has the operands that its kind reads. -/
structure Gate.InRange (c : Circuit) (gate : Gate) : Prop where
  output_lt : gate.output.index < c.nets.size
  inputs_inRange : ∀ s ∈ gate.inputs, s.InRange c.nets.size
  /-- There are as many operands as the kind reads. -/
  arity : gate.inputs.length = gate.kind.arity
  /-- Shifts and block numbers are in range. -/
  bounded : gate.kind.Bounded c.roms.length c.rams.length

/-- The representation of a circuit is sound. -/
structure Circuit.Sound (c : Circuit) : Prop where
  /-- Every position has an identifier. -/
  size_le : c.nets.size ≤ UInt32.size
  inputs_lt : ∀ pin ∈ c.inputs, pin.net.index < c.nets.size
  outputs_lt : ∀ pin ∈ c.outputs, pin.net.index < c.nets.size
  gates_inRange : ∀ gate ∈ c.gates.toList, gate.InRange c
  registers_lt : ∀ r ∈ c.registers, r.current.index < c.nets.size
  registers_inRange : ∀ r ∈ c.registers, r.next.InRange c.nets.size
  rams_inRange : ∀ r ∈ c.rams, r.writeEnable.InRange c.nets.size ∧ r.writeAddr.InRange c.nets.size ∧
    r.writeData.InRange c.nets.size
  /-- The schedule visits every gate once. -/
  schedule_perm : c.schedule.Perm (List.range c.gates.size)
  /-- Every gate comes after the gates that it reads. -/
  schedule_ordered :
    (Dependencies.ofGates c.gates (producers c.nets.size c.gates)).Ordered c.schedule
  /-- Every net is the net of an input pin, the output of a gate or the net of a register, and only one
      of these. -/
  driven : DrivenOnce c.nets.size (c.inputs.map Pin.net ++
    (c.gates.toList.map Gate.output ++ c.registers.map Register.current))

/-!
### Elements
-/

theorem Scope.Resolves.width_mem {scope : Scope} (hscope : scope.Proper) {position : Option Nat}
    {a : Operand} {s : Source} {w : Nat} (h : scope.Resolves position a ⟨s, w⟩) :
    0 < w ∧ w ≤ scope.limit := by
  cases h with
  | net found => exact hscope.width_mem (hscope.index_lt found)
  | const given pos le fits => exact ⟨pos, le⟩

theorem Extracts.low_lt {w low count : Nat} {op : Op} {params : List UInt32}
    (h : Extracts w op params low count) : low < w := by
  cases h <;> omega

namespace Equation

variable {scope : Scope} {eq : Equation} {w : Nat}

/-- A gate that reads no memory has the operands of its kind and shifts by less than a word. -/
theorem Elaborates.logic_inRange {kind : GateKind} {sources : List Source} (hscope : scope.Proper)
    (hw : w ≤ scope.limit) (h : Elaborates scope w eq (.logic kind sources)) (roms rams : Nat) :
    sources.length = kind.arity ∧ kind.Bounded roms rams := by
  have hlimit := hscope.limit_le
  cases h with
  | unary gate operand => cases gate <;> exact ⟨rfl, trivial⟩
  | binary gate left right => cases gate <;> exact ⟨rfl, trivial⟩
  | mux selector first second => exact ⟨rfl, trivial⟩
  | concat high low sum =>
      -- the high side takes at least one bit
      have hpos := (high.width_mem hscope).1
      refine ⟨rfl, ?_⟩
      simp only [GateKind.Bounded]
      omega
  | extract operand bits =>
      have hle := (operand.width_mem hscope).2
      have hlt := bits.low_lt
      refine ⟨rfl, ?_⟩
      simp only [GateKind.Bounded]
      omega

end Equation

/-!
### Circuits
-/

namespace Description

variable {d : Description} {limit : Nat} {inputs outputs : List Pin} {parts : List Part}
  {schedule : List Nat} {config : Config} {c : Circuit}

namespace Checked

variable (h : d.Checked limit inputs outputs parts)

include h

theorem pins_lt {names : List String} {pins : List Pin}
    (hattached : List.Forall₂ (d.scope limit).Attaches names pins) {pin : Pin} (hpin : pin ∈ pins) :
    pin.net.index < d.nets.length := by
  obtain ⟨name, -, -, hfind, -⟩ := forall₂_mem_right hattached hpin
  simpa [scope] using h.proper.index_lt hfind

theorem sources_inRange {part : Part} (hpart : part ∈ parts) {s : Source}
    (hs : s ∈ part.element.sources) : s.InRange d.nets.length := by
  obtain ⟨k, hk⟩ := List.mem_iff_getElem?.1 hpart
  obtain ⟨eq, -, -, -, -, helem⟩ := h.elaborates hk
  rintro id rfl
  simpa [scope] using helem.index_lt h.proper hs

theorem target_lt {part : Part} (hpart : part ∈ parts) : part.target.index < d.nets.length :=
  h.driven_lt (List.mem_append_right _ (List.mem_map_of_mem hpart))

theorem width_le {k : Nat} {part : Part} (hpart : parts[k]? = some part) : part.width ≤ limit := by
  obtain ⟨eq, -, hfind, -, hwidth, -⟩ := h.elaborates hpart
  rw [hwidth]
  exact (h.proper.width_mem (h.proper.index_lt hfind)).2

theorem gate_inRange {gate : Gate} (hgate : gate ∈ Part.gatesFrom 0 0 parts) :
    gate.InRange (d.circuit inputs outputs parts schedule) := by
  obtain ⟨k, part, hk, hgate⟩ := Part.mem_gatesFrom_iff.1 hgate
  have hpart : part ∈ parts := List.mem_of_getElem? hk
  obtain ⟨houtput, hinputs, -⟩ := Part.gate?_eq_some hgate
  obtain ⟨eq, -, -, -, -, helem⟩ := h.elaborates hk
  have hsize : (d.circuit inputs outputs parts schedule).nets.size = d.nets.length := size_netTable d
  -- the block of a memory is the one that its own part adds
  have hkind : gate.inputs.length = gate.kind.arity ∧
      gate.kind.Bounded (Part.romCount parts) (Part.ramCount parts) := by
    rw [Nat.zero_add, Nat.zero_add] at hgate
    rcases part with ⟨name, target, width, element⟩
    cases element with
    | logic kind sources =>
        cases hgate
        exact helem.logic_inRange h.proper (h.width_le hk) _ _
    | register next init => cases hgate
    | rom addrWidth wordWidth addr =>
        cases hgate
        have hblock := getElem?_filterMap_take (f := Part.romBlock?) hk rfl
        exact ⟨rfl, (List.getElem?_eq_some_iff.1 hblock).1⟩
    | ram addrWidth wordWidth readAddr writeEnable writeAddr writeData =>
        cases hgate
        have hblock := getElem?_filterMap_take (f := Part.ramBlock?) hk rfl
        exact ⟨rfl, (List.getElem?_eq_some_iff.1 hblock).1⟩
  refine ⟨?_, ?_, hkind.1, hkind.2⟩
  · rw [houtput, hsize]
    exact h.target_lt hpart
  · intro s hs
    rw [hinputs] at hs
    rw [hsize]
    exact h.sources_inRange hpart (Element.mem_sources_of_mem_reads hs)

/-- The circuit of a checked description with an order of its gates is sound. -/
theorem sound (hschedule : (dependencies d.nets.length parts).schedule = .ok schedule) :
    (d.circuit inputs outputs parts schedule).Sound := by
  have hsize : (d.circuit inputs outputs parts schedule).nets.size = d.nets.length := size_netTable d
  obtain ⟨hperm, hordered⟩ := Dependencies.schedule_ok hschedule
  constructor
  case size_le =>
    rw [hsize]
    exact h.size_le
  case inputs_lt =>
    intro pin hpin
    rw [hsize]
    exact h.pins_lt h.inputs_attached hpin
  case outputs_lt =>
    intro pin hpin
    rw [hsize]
    exact h.pins_lt h.outputs_attached hpin
  case gates_inRange => exact fun gate hgate => h.gate_inRange (by simpa [circuit] using hgate)
  case registers_lt =>
    intro r hr
    obtain ⟨part, hpart, hr⟩ := List.mem_filterMap.1 hr
    rw [hsize, (Part.register?_eq_some hr).1]
    exact h.target_lt hpart
  case registers_inRange =>
    intro r hr
    obtain ⟨part, hpart, hr⟩ := List.mem_filterMap.1 hr
    rw [hsize]
    refine h.sources_inRange hpart ?_
    rw [(Part.register?_eq_some hr).2.2]
    exact List.mem_singleton_self _
  case rams_inRange =>
    intro r hr
    obtain ⟨part, hpart, hr⟩ := List.mem_filterMap.1 hr
    rw [hsize]
    have hsources := fun s => h.sources_inRange hpart (s := s)
    rcases part with ⟨name, target, width, element⟩
    cases element with
    | ram addrWidth wordWidth readAddr writeEnable writeAddr writeData =>
        cases hr
        simp only [Element.sources, List.mem_cons] at hsources
        exact ⟨hsources _ (by simp), hsources _ (by simp), hsources _ (by simp)⟩
    | logic | register | rom => cases hr
  case schedule_perm => simpa [dependencies, circuit] using hperm
  case schedule_ordered =>
    rw [hsize]
    exact hordered
  case driven =>
    rw [hsize]
    exact (DrivenOnce.perm ((Part.targets_perm 0 0 parts).append_left _)).1 h.driven

end Checked

/-- Every circuit that compilation gives is sound. -/
theorem sound_of_compile (h : d.compile config = .ok c) : c.Sound := by
  obtain ⟨inputs, outputs, parts, schedule, hchecked, hschedule, rfl⟩ := compile_eq_ok_iff.1 h
  exact hchecked.sound hschedule

end Description

end Netlist
