/-
Module: Netlist.Proofs.Assembly
Layer: Proofs
Purpose: How a circuit is put together from checked equations. Every equation that is no register gives
  one gate, whose memory block is numbered by the equations of the same kind before it; the gates and
  registers between them drive the targets of all equations. `Description.Checked` collects what the
  checks before scheduling establish, and compilation succeeds exactly when these checks pass and the
  gates have an order.
Imports: Netlist.Proofs.Drivers, Netlist.Proofs.Elaboration
Main exports: Element.reads, Element.sources, Part.gate?, Part.mem_gatesFrom_iff, Part.targets_perm,
  Description.Checked, Description.circuit, Description.compile_eq_ok_iff, Description.Checked.feeds_iff
-/
import Netlist.Proofs.Drivers
import Netlist.Proofs.Elaboration

namespace Netlist

/-!
### The operands of an element
-/

/-- All operands of an element. -/
def Element.sources : Element → List Source
  | .logic _ inputs => inputs
  | .register next _ => [next]
  | .rom _ _ addr => [addr]
  | .ram _ _ readAddr writeEnable writeAddr writeData => [readAddr, writeEnable, writeAddr, writeData]

/-- The operands that the net of an element follows within a step. A register follows none, a memory its
    read address only. -/
def Element.reads : Element → List Source
  | .logic _ inputs => inputs
  | .register .. => []
  | .rom _ _ addr => [addr]
  | .ram _ _ readAddr .. => [readAddr]

/-- The operands that the target of an equation follows within a step. -/
def Equation.reads (eq : Equation) : List Operand :=
  match eq.op with
  | .reg => []
  | .ram => eq.args.take 1
  | _ => eq.args

/-- An operand stands for a source at some position of an equation. -/
def Scope.StandsFor (scope : Scope) (a : Operand) (s : Source) : Prop :=
  ∃ position w, scope.Resolves position a ⟨s, w⟩

theorem Scope.Resolves.standsFor {scope : Scope} {position : Option Nat} {a : Operand} {s : Source}
    {w : Nat} (h : scope.Resolves position a ⟨s, w⟩) : scope.StandsFor a s :=
  ⟨position, w, h⟩

/-- An operand that stands for a net names it. -/
theorem Scope.StandsFor.net_iff {scope : Scope} {a : Operand} {s : Source} (h : scope.StandsFor a s)
    {id : NetId} : s = .net id ↔ ∃ name, a = .net name ∧ scope.find name = .ok id := by
  obtain ⟨position, w, h⟩ := h
  cases h with
  | net found =>
      constructor
      · intro heq
        cases heq
        exact ⟨_, rfl, found⟩
      · rintro ⟨name, heq, hfind⟩
        cases heq
        rw [found] at hfind
        cases hfind
        rfl
  | const => simp

namespace Equation

variable {scope : Scope} {eq : Equation} {w : Nat} {e : Element}

/-- The operands of an equation stand for the sources of its element. -/
theorem Elaborates.sources (h : Elaborates scope w eq e) :
    List.Forall₂ scope.StandsFor eq.args e.sources := by
  cases h with
  | unary gate operand => exact .cons operand.standsFor .nil
  | binary gate left right => exact .cons left.standsFor (.cons right.standsFor .nil)
  | mux selector first second =>
      exact .cons selector.standsFor (.cons first.standsFor (.cons second.standsFor .nil))
  | concat high low sum => exact .cons high.standsFor (.cons low.standsFor .nil)
  | extract operand bits => exact .cons operand.standsFor .nil
  | register operand fits => exact .cons operand.standsFor .nil
  | rom pos le wordPos wordLe word address => exact .cons address.standsFor .nil
  | ram pos le wordPos wordLe word read enable write data =>
      exact .cons read.standsFor (.cons enable.standsFor (.cons write.standsFor
        (.cons data.standsFor .nil)))

/-- What the target of an equation follows is what the gate of its element reads. -/
theorem Elaborates.reads (h : Elaborates scope w eq e) :
    List.Forall₂ scope.StandsFor eq.reads e.reads := by
  have hsources := h.sources
  cases h with
  | unary gate operand => cases gate <;> exact hsources
  | binary gate left right => cases gate <;> exact hsources
  | extract operand bits => cases bits <;> exact hsources
  | register operand fits => exact .nil
  | ram pos le wordPos wordLe word read enable write data => exact .cons read.standsFor .nil
  | mux | concat | rom => exact hsources

/-- The sources of an element are constants and nets of the table. -/
theorem Elaborates.index_lt (h : Elaborates scope w eq e) (hscope : scope.Proper) {id : NetId}
    (hid : .net id ∈ e.sources) : id.index < scope.nets.size := by
  obtain ⟨a, -, ha⟩ := forall₂_mem_right h.sources hid
  obtain ⟨name, -, hfind⟩ := ha.net_iff.1 rfl
  exact hscope.index_lt hfind

theorem Elaborates.register_inv {next : Source} {init : Word}
    (h : Elaborates scope w eq (.register next init)) :
    ∃ operand, eq.op = .reg ∧ eq.args = [operand] ∧ scope.Resolves (some w) operand ⟨next, w⟩ ∧
      init = eq.init.getD 0 ∧ init.toNat < 2 ^ w := by
  cases h with
  | register operand fits => exact ⟨_, rfl, rfl, operand, rfl, fits⟩

theorem Elaborates.ram_inv {addrWidth wordWidth : Nat} {sr se sw sd : Source}
    (h : Elaborates scope w eq (.ram addrWidth wordWidth sr se sw sd)) :
    ∃ readAddr writeEnable writeAddr writeData : Operand, ∃ aw ww : UInt32,
      eq.op = .ram ∧ eq.args = [readAddr, writeEnable, writeAddr, writeData] ∧ eq.params = [aw, ww] ∧
      aw.toNat = addrWidth ∧ ww.toNat = wordWidth ∧ wordWidth = w ∧
      scope.Resolves (some 1) writeEnable ⟨se, 1⟩ ∧
      scope.Resolves (some addrWidth) writeAddr ⟨sw, addrWidth⟩ ∧
      scope.Resolves (some wordWidth) writeData ⟨sd, wordWidth⟩ := by
  cases h with
  | ram pos le wordPos wordLe word read enable write data =>
      exact ⟨_, _, _, _, _, _, rfl, rfl, rfl, rfl, rfl, word, enable, write, data⟩

/-- The operation of an equation decides what kind of element it becomes. -/
theorem Elaborates.kind (h : Elaborates scope w eq e) :
    (eq.op = .reg ↔ ∃ next init, e = .register next init) ∧
    (eq.op = .rom ↔ ∃ aw ww addr, e = .rom aw ww addr) ∧
    (eq.op = .ram ↔ ∃ aw ww sr se sw sd, e = .ram aw ww sr se sw sd) := by
  cases h with
  | unary gate operand => cases gate <;> simp
  | binary gate left right => cases gate <;> simp
  | extract operand bits => cases bits <;> simp
  | mux | concat | register | rom | ram => simp

end Equation

theorem Element.mem_sources_of_mem_reads {e : Element} {s : Source} (h : s ∈ e.reads) :
    s ∈ e.sources := by
  cases e with
  | logic kind inputs => exact h
  | register next init => cases h
  | rom addrWidth wordWidth addr => exact h
  | ram addrWidth wordWidth readAddr writeEnable writeAddr writeData =>
      cases List.mem_singleton.1 h
      exact List.mem_cons_self

/-!
### Parts and gates
-/

namespace Part

/-- The gate of a part whose memory block, if it has one, gets the next number of its kind. -/
def gate? (roms rams : Nat) (part : Part) : Option Gate :=
  match part.element with
  | .logic kind inputs => some ⟨kind, inputs, part.target, part.width⟩
  | .register .. => none
  | .rom _ _ addr => some ⟨.romRead roms, [addr], part.target, part.width⟩
  | .ram _ _ readAddr .. => some ⟨.ramRead rams, [readAddr], part.target, part.width⟩

def romCount (parts : List Part) : Nat :=
  (parts.filterMap romBlock?).length

def ramCount (parts : List Part) : Nat :=
  (parts.filterMap ramBlock?).length

variable {roms rams : Nat} {part : Part} {parts : List Part} {gate : Gate}

theorem gatesFrom_cons (roms rams : Nat) (part : Part) (rest : List Part) :
    gatesFrom roms rams (part :: rest) = (part.gate? roms rams).toList ++
      gatesFrom (roms + romCount [part]) (rams + ramCount [part]) rest := by
  rcases part with ⟨name, target, width, element⟩
  cases element <;> rfl

theorem romCount_cons (part : Part) (rest : List Part) :
    romCount (part :: rest) = romCount [part] + romCount rest := by
  rw [romCount, ← List.singleton_append, List.filterMap_append, List.length_append]
  rfl

theorem ramCount_cons (part : Part) (rest : List Part) :
    ramCount (part :: rest) = ramCount [part] + ramCount rest := by
  rw [ramCount, ← List.singleton_append, List.filterMap_append, List.length_append]
  rfl

/-- The gates of a list of parts are those of the single parts, where the block of a part has the number
    of blocks before it. -/
theorem mem_gatesFrom_iff : gate ∈ gatesFrom roms rams parts ↔
    ∃ (k : Nat) (part : Part), parts[k]? = some part ∧
      part.gate? (roms + romCount (parts.take k)) (rams + ramCount (parts.take k)) = some gate := by
  induction parts generalizing roms rams with
  | nil => simp [gatesFrom]
  | cons part rest ih =>
      rw [gatesFrom_cons, List.mem_append, Option.mem_toList, ih]
      constructor
      · rintro (hgate | ⟨k, other, hother, hgate⟩)
        · exact ⟨0, part, rfl, hgate⟩
        · refine ⟨k + 1, other, hother, ?_⟩
          rw [List.take_succ_cons, romCount_cons, ramCount_cons, ← Nat.add_assoc, ← Nat.add_assoc]
          exact hgate
      · rintro ⟨k, other, hother, hgate⟩
        cases k with
        | zero =>
            cases hother
            exact Or.inl hgate
        | succ k =>
            rw [List.take_succ_cons, romCount_cons, ramCount_cons, ← Nat.add_assoc,
              ← Nat.add_assoc] at hgate
            exact Or.inr ⟨k, other, hother, hgate⟩

/-- The gate of a part drives its target, reads what its element reads and has its width. -/
theorem gate?_eq_some (h : part.gate? roms rams = some gate) :
    gate.output = part.target ∧ gate.inputs = part.element.reads ∧ gate.width = part.width := by
  rcases part with ⟨name, target, width, element⟩
  cases element with
  | register next init => cases h
  | logic | rom | ram =>
      cases h
      exact ⟨rfl, rfl, rfl⟩

/-- A part has either a gate or a register. -/
theorem isSome_gate? : (part.gate? roms rams).isSome = part.register?.isNone := by
  rcases part with ⟨name, target, width, element⟩
  cases element <;> rfl

theorem register?_eq_some {r : Register} (h : part.register? = some r) :
    r.current = part.target ∧ r.width = part.width ∧
      part.element = .register r.next r.init := by
  rcases part with ⟨name, target, width, element⟩
  cases element with
  | register next init =>
      cases h
      exact ⟨rfl, rfl, rfl⟩
  | logic | rom | ram => cases h

theorem romBlock?_eq_some {block : RomBlock} (h : part.romBlock? = some block) :
    block.name = part.name ∧ ∃ addr, part.element = .rom block.addrWidth block.wordWidth addr := by
  rcases part with ⟨name, target, width, element⟩
  cases element with
  | rom addrWidth wordWidth addr =>
      cases h
      exact ⟨rfl, addr, rfl⟩
  | logic | register | ram => cases h

theorem name_of_ramBlock? {block : RamBlock} (h : part.ramBlock? = some block) :
    block.name = part.name := by
  rcases part with ⟨name, target, width, element⟩
  cases element with
  | ram addrWidth wordWidth readAddr writeEnable writeAddr writeData =>
      cases h
      rfl
  | logic | register | rom => cases h

theorem outputs_gatesFrom (roms rams : Nat) (parts : List Part) :
    (gatesFrom roms rams parts).map Gate.output =
      (parts.filter (fun part => part.register?.isNone)).map Part.target := by
  induction parts generalizing roms rams with
  | nil => rfl
  | cons part rest ih =>
      rw [gatesFrom_cons, List.map_append, ih]
      rcases part with ⟨name, target, width, element⟩
      cases element <;> rfl

theorem currents_eq (parts : List Part) :
    (parts.filterMap register?).map Register.current =
      (parts.filter (fun part => !part.register?.isNone)).map Part.target := by
  induction parts with
  | nil => rfl
  | cons part rest ih =>
      rcases part with ⟨name, target, width, element⟩
      cases element with
      | register next init => exact congrArg (target :: ·) ih
      | logic | rom | ram => exact ih

/-- Gates and registers together drive the targets of all parts. -/
theorem targets_perm (roms rams : Nat) (parts : List Part) :
    (parts.map Part.target).Perm ((gatesFrom roms rams parts).map Gate.output ++
      (parts.filterMap register?).map Register.current) := by
  rw [outputs_gatesFrom, currents_eq, ← List.map_append]
  exact ((List.filter_append_perm _ parts).map Part.target).symm

end Part

/-!
### Compilation
-/

namespace Description

/-- What the checks before scheduling establish, with the pins and parts that they give. -/
structure Checked (d : Description) (limit : Nat) (inputs outputs : List Pin) (parts : List Part) :
    Prop where
  names : (d.nets.map NetDecl.name).Nodup
  widths : ∀ decl ∈ d.nets, 0 < decl.width.toNat ∧ decl.width.toNat ≤ limit
  limit_le : limit ≤ Word.maxWidth
  inputs_nodup : d.inputs.Nodup
  inputs_attached : List.Forall₂ (d.scope limit).Attaches d.inputs inputs
  outputs_nodup : d.outputs.Nodup
  outputs_attached : List.Forall₂ (d.scope limit).Attaches d.outputs outputs
  parts_checked : List.Forall₂ (fun eq part => eq.part (d.scope limit) = .ok part) d.equations parts
  driven : DrivenOnce d.nets.length (inputs.map Pin.net ++ parts.map Part.target)

/-- The dependencies among the gates of parts, in a table of `size` nets. -/
def dependencies (size : Nat) (parts : List Part) : Dependencies :=
  let gates := (Part.gatesFrom 0 0 parts).toArray
  Dependencies.ofGates gates (producers size gates)

/-- The circuit of pins and parts. -/
def circuit (d : Description) (inputs outputs : List Pin) (parts : List Part)
    (schedule : List Nat) : Circuit where
  name := d.name
  nets := d.netTable
  inputs
  outputs
  gates := (Part.gatesFrom 0 0 parts).toArray
  registers := parts.filterMap Part.register?
  roms := parts.filterMap Part.romBlock?
  rams := parts.filterMap Part.ramBlock?
  schedule

variable {d : Description} {config : Config} {c : Circuit} {limit : Nat} {inputs outputs : List Pin}
  {parts : List Part}

@[simp] theorem size_netTable (d : Description) : d.netTable.size = d.nets.length := by
  simp [netTable]

/-- Compilation succeeds exactly when the checks pass and the gates have an order. -/
theorem compile_eq_ok_iff : d.compile config = .ok c ↔
    ∃ inputs outputs parts schedule, d.Checked config.maxBusWidth inputs outputs parts ∧
      (dependencies d.nets.length parts).schedule = .ok schedule ∧
      c = d.circuit inputs outputs parts schedule := by
  simp only [Description.compile, bind_eq_ok_iff, declareNets_eq_ok_iff, attachPins_eq_ok_iff,
    mapM_eq_ok_iff, checkDrivers_eq_ok_iff]
  constructor
  · rintro ⟨_, ⟨hnames, hwidths, rfl⟩, inputs, ⟨hinodup, hinputs⟩, outputs, ⟨honodup, houtputs⟩,
      parts, hparts, _, hdriven, h⟩
    rw [size_netTable] at hdriven
    split at h
    · next schedule hschedule =>
        injection h with h
        rw [size_netTable] at hschedule
        exact ⟨inputs, outputs, parts, schedule,
          ⟨hnames, hwidths, config.maxBusWidth_le, hinodup, hinputs, honodup, houtputs, hparts, hdriven⟩,
          hschedule, h.symm⟩
    · cases h
  · rintro ⟨inputs, outputs, parts, schedule, h, hschedule, rfl⟩
    refine ⟨d.netTable, ⟨h.names, h.widths, rfl⟩, inputs, ⟨h.inputs_nodup, h.inputs_attached⟩, outputs,
      ⟨h.outputs_nodup, h.outputs_attached⟩, parts, h.parts_checked, (), ?_, ?_⟩
    · rw [size_netTable]
      exact h.driven
    · rw [dependencies] at hschedule
      simp only [size_netTable, hschedule]
      rfl

namespace Checked

variable (h : d.Checked limit inputs outputs parts)

include h

theorem size_le : d.nets.length ≤ UInt32.size :=
  h.driven.size_le

theorem proper : (d.scope limit).Proper :=
  scope_proper h.size_le h.names h.widths h.limit_le

/-- A part belongs to an equation whose target it drives. -/
theorem elaborates {k : Nat} {part : Part} (hpart : parts[k]? = some part) :
    ∃ eq, d.equations[k]? = some eq ∧ (d.scope limit).find eq.target = .ok part.target ∧
      part.name = eq.target ∧ part.width = (d.scope limit).width part.target ∧
      Equation.Elaborates (d.scope limit) part.width eq part.element := by
  obtain ⟨eq, heq, hok⟩ := forall₂_getElem?_right h.parts_checked hpart
  exact ⟨eq, heq, Equation.part_eq_ok_iff.1 hok⟩

/-- An equation has become a part that drives its target. -/
theorem part {k : Nat} {eq : Equation} (heq : d.equations[k]? = some eq) :
    ∃ part, parts[k]? = some part ∧ (d.scope limit).find eq.target = .ok part.target ∧
      part.name = eq.target ∧ part.width = (d.scope limit).width part.target ∧
      Equation.Elaborates (d.scope limit) part.width eq part.element := by
  obtain ⟨part, hpart, hok⟩ := forall₂_getElem?_left h.parts_checked heq
  exact ⟨part, hpart, Equation.part_eq_ok_iff.1 hok⟩

/-- Pins and parts drive nets of the table. -/
theorem driven_lt {id : NetId} (hid : id ∈ inputs.map Pin.net ++ parts.map Part.target) :
    id.index < d.nets.length := by
  have hlt : ∀ {name : String}, (d.scope limit).find name = .ok id → id.index < d.nets.length := by
    intro name hfind
    simpa [scope] using h.proper.index_lt hfind
  rcases List.mem_append.1 hid with hid | hid
  · obtain ⟨pin, hpin, rfl⟩ := List.mem_map.1 hid
    obtain ⟨name, -, -, hfind, -⟩ := forall₂_mem_right h.inputs_attached hpin
    exact hlt hfind
  · obtain ⟨part, hpart, rfl⟩ := List.mem_map.1 hid
    obtain ⟨k, hk⟩ := List.mem_iff_getElem?.1 hpart
    obtain ⟨eq, -, hfind, -⟩ := h.elaborates hk
    exact hlt hfind

/-- No net has two drivers among the pins, gates and registers. -/
theorem nodup : (inputs.map Pin.net ++ ((Part.gatesFrom 0 0 parts).map Gate.output ++
    (parts.filterMap Part.register?).map Register.current)).Nodup :=
  ((Part.targets_perm 0 0 parts).append_left _).nodup_iff.1
    (h.driven.nodup (fun _ hid => h.driven_lt hid))

theorem outputs_gates_nodup : ((Part.gatesFrom 0 0 parts).map Gate.output).Nodup :=
  h.nodup.of_append_right.of_append_left

/-- A gate belongs to an equation, and reads what the target of the equation follows. -/
theorem gate {gate : Gate} (hgate : gate ∈ Part.gatesFrom 0 0 parts) :
    ∃ eq ∈ d.equations, (d.scope limit).find eq.target = .ok gate.output ∧
      List.Forall₂ (d.scope limit).StandsFor eq.reads gate.inputs := by
  obtain ⟨k, part, hpart, hgate⟩ := Part.mem_gatesFrom_iff.1 hgate
  obtain ⟨eq, heq, hfind, -, -, helem⟩ := h.elaborates hpart
  obtain ⟨houtput, hinputs, -⟩ := Part.gate?_eq_some hgate
  refine ⟨eq, List.mem_of_getElem? heq, houtput ▸ hfind, ?_⟩
  rw [hinputs]
  exact helem.reads

/-- An equation that follows some operand has a gate that reads what the target follows. -/
theorem exists_gate {eq : Equation} (heq : eq ∈ d.equations) (hreads : eq.reads ≠ []) :
    ∃ gate ∈ Part.gatesFrom 0 0 parts, (d.scope limit).find eq.target = .ok gate.output ∧
      List.Forall₂ (d.scope limit).StandsFor eq.reads gate.inputs := by
  obtain ⟨k, hk⟩ := List.mem_iff_getElem?.1 heq
  obtain ⟨part, hpart, hfind, -, -, helem⟩ := h.part hk
  have hgate : (part.gate? (0 + Part.romCount (parts.take k))
      (0 + Part.ramCount (parts.take k))).isSome = true := by
    rw [Part.isSome_gate?, Option.isNone_iff_eq_none]
    cases hr : part.register? with
    | none => rfl
    | some r =>
        -- the target of a register follows nothing
        have hlist := helem.reads
        rw [(Part.register?_eq_some hr).2.2] at hlist
        exact absurd (List.forall₂_nil_right_iff.1 hlist) hreads
  obtain ⟨gate, hgate⟩ := Option.isSome_iff_exists.1 hgate
  obtain ⟨houtput, hinputs, -⟩ := Part.gate?_eq_some hgate
  refine ⟨gate, Part.mem_gatesFrom_iff.2 ⟨k, part, hpart, hgate⟩, houtput ▸ hfind, ?_⟩
  rw [hinputs]
  exact helem.reads

theorem inputNets_lt {gate : Gate} (hgate : gate ∈ Part.gatesFrom 0 0 parts) {id : NetId}
    (hid : id ∈ gate.inputNets) : id.index < d.nets.length := by
  obtain ⟨eq, -, -, hreads⟩ := h.gate hgate
  obtain ⟨s, hs, hnet⟩ := List.mem_filterMap.1 hid
  obtain ⟨a, -, ha⟩ := forall₂_mem_right hreads hs
  cases s with
  | const value => cases hnet
  | net other =>
      cases hnet
      obtain ⟨name, -, hfind⟩ := ha.net_iff.1 rfl
      simpa [scope] using h.proper.index_lt hfind

/-- One gate of a checked description feeds another when it drives a net that the other one reads. -/
theorem feeds_iff {source g : Nat} : (dependencies d.nets.length parts).Feeds source g ↔
    ∃ gate other, (Part.gatesFrom 0 0 parts)[g]? = some gate ∧
      (Part.gatesFrom 0 0 parts)[source]? = some other ∧ other.output ∈ gate.inputNets := by
  rw [dependencies, Dependencies.feeds_ofGates_iff (by simpa using h.outputs_gates_nodup)
    (fun gate hgate id hid => h.inputNets_lt (by simpa using hgate) hid)]
  simp

theorem inRange : (dependencies d.nets.length parts).InRange :=
  Dependencies.inRange_ofGates (by simpa using h.outputs_gates_nodup)
    (fun _ hgate _ hid => h.inputNets_lt (by simpa using hgate) hid)

end Checked

end Description

end Netlist
