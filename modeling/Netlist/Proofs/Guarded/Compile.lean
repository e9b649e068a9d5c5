/-
Module: Netlist.Proofs.Guarded.Compile
Layer: Proofs
Purpose: Compiling with guarded accesses, in one pass over the equations. The drivers of each net are
  counted and the gate of each net is entered while pins are attached and equations checked, so that
  these tables are written before anything is known about later equations. After each equation the tables
  are those of the parts found so far; no access fails in any description of at most 2³² nets, whether it
  compiles or not.
Imports: Netlist.Proofs.Guarded.Equations, Netlist.Proofs.Guarded.Schedule
Main exports: Guarded.Tables, Guarded.attachPin, Guarded.equation, Guarded.compile,
  Guarded.foldlM_equation_eq_safe, Guarded.compile_eq_safe
-/
import Netlist.Proofs.Guarded.Equations
import Netlist.Proofs.Guarded.Schedule

namespace Netlist

namespace Guarded

/-!
### Pins
-/

/-- Counts one more driver of a net, if it drives at all. -/
def count (driving : Bool) (drivers : Array Nat) (net : NetId) : Option (Array Nat) :=
  if driving then update drivers net.index (· + 1) else some drivers

/-- Attaches one more pin; a pin that drives its net is counted. -/
def attachPin (scope : Scope) (driving : Bool) (state : List Pin × Array Nat) (name : String) :
    ExceptT NetlistError Option (List Pin × Array Nat) := do
  let (pins, drivers) := state
  if pins.any (fun pin => pin.name == name) then throw (.duplicatePin name)
  else
    let net ← safe (scope.find name)
    let drivers ← count driving drivers net
    let width ← width scope net
    return (pins ++ [⟨name, net, width⟩], drivers)

/-!
### Equations
-/

/-- What compilation has gathered. -/
structure Tables where
  drivers : Array Nat
  producer : Array (Option Nat)
  gates : Array Gate
  registers : List Register
  roms : List RomBlock
  rams : List RamBlock

namespace Tables

/-- Adds a gate, if there is one, and enters it as the producer of its output. -/
def pushGate? (t : Tables) : Option Gate → Option Tables
  | some gate => do
    let producer ← store t.producer gate.output.index (some t.gates.size)
    some { t with producer, gates := t.gates.push gate }
  | none => some t

/-- Adds the gate, register or memory of a part. -/
def place (t : Tables) (part : Part) : Option Tables := do
  let placed ← t.pushGate? (part.gate? t.roms.length t.rams.length)
  some { placed with
    registers := t.registers ++ part.register?.toList
    roms := t.roms ++ part.romBlock?.toList
    rams := t.rams ++ part.ramBlock?.toList }

def ofParts (size : Nat) (drivers : Array Nat) (parts : List Part) : Tables where
  drivers
  producer := producers size (Part.gatesFrom 0 0 parts).toArray
  gates := (Part.gatesFrom 0 0 parts).toArray
  registers := parts.filterMap Part.register?
  roms := parts.filterMap Part.romBlock?
  rams := parts.filterMap Part.ramBlock?

/-- The tables after pins and parts, with the drivers counted. -/
def after (size : Nat) (pins : List Pin) (parts : List Part) : Tables :=
  ofParts size (driverCounts size (pins.map Pin.net ++ parts.map Part.target)) parts

end Tables

/-- Checks one more equation. Its target counts as driven as soon as it is found. -/
def equation (scope : Scope) (t : Tables) (eq : Equation) : ExceptT NetlistError Option Tables := do
  let target ← safe (scope.find eq.target)
  let width ← width scope target
  let drivers ← count true t.drivers target
  safe eq.checkShape
  let element ← element eq scope width
  { t with drivers }.place ⟨eq.target, target, width, element⟩

/-!
### The whole description
-/

/-- Checks that each net has been counted exactly once. -/
def checkCounts (nets : Array NetInfo) (drivers : Array Nat) : Except NetlistError Unit :=
  match (nets.toList.zip drivers.toList).find? (fun e => e.2 != 1) with
  | none => .ok ()
  | some (net, 0) => .error (.undriven net.name)
  | some (net, count) => .error (.multipleDrivers net.name count)

/-- The names of the nets on a cycle of gates. -/
def cyclePath (nets : Array NetInfo) (gates : Array Gate) (cycle : List Nat) : Option (List String) := do
  let names ← cycle.mapM (fun g => do
    let gate ← gates[g]?
    let net ← nets[gate.output.index]?
    some net.name)
  some (names ++ names.head?.toList)

/-- Orders the gates and puts the circuit together. -/
def assemble (d : Description) (nets : Array NetInfo) (inputs outputs : List Pin) (t : Tables) :
    ExceptT NetlistError Option Circuit := do
  let outcome ← schedule t.gates t.producer
  match outcome with
  | .ok schedule =>
    return {
      name := d.name
      nets, inputs, outputs
      gates := t.gates
      registers := t.registers
      roms := t.roms
      rams := t.rams
      schedule }
  | .error cycle =>
    let path ← cyclePath nets t.gates cycle
    throw (.combinationalCycle path)

def compile (d : Description) (config : Config) : ExceptT NetlistError Option Circuit := do
  let nets ← safe (declareNets config.maxBusWidth d.nets)
  let scope : Scope := ⟨config.maxBusWidth, nets⟩
  let (inputs, drivers) ← d.inputs.foldlM (attachPin scope true) ([], Array.replicate nets.size 0)
  let (outputs, drivers) ← d.outputs.foldlM (attachPin scope false) ([], drivers)
  let t ← d.equations.foldlM (equation scope)
    ⟨drivers, Array.replicate nets.size none, #[], [], [], []⟩
  safe (checkCounts nets t.drivers)
  assemble d nets inputs outputs t

/-!
### Agreement on pins
-/

theorem driverCounts_concat (size : Nat) (driven : List NetId) (id : NetId) :
    driverCounts size (driven ++ [id]) = (driverCounts size driven).modify id.index (· + 1) := by
  rw [driverCounts, List.foldl_append]
  rfl

theorem count_eq_some {size : Nat} {id : NetId} (h : id.index < size) (driven : List NetId) :
    count true (driverCounts size driven) id = some (driverCounts size (driven ++ [id])) := by
  rw [driverCounts_concat]
  apply update_eq_some
  rw [size_driverCounts]
  exact h

section Scope

variable {scope : Scope} (hscope : scope.Proper)

include hscope

/-- Attaching pins agrees when the count after some pins is a function of these pins. -/
theorem foldlM_attachPin_eq_safe {driving : Bool} (tally : List Pin → Array Nat)
    (htally : ∀ pins pin, pin.net.index < scope.nets.size →
      count driving (tally pins) pin.net = some (tally (pins ++ [pin])))
    (names : List String) :
    names.foldlM (attachPin scope driving) ([], tally []) =
      safe (attachPins scope names >>= fun pins => .ok (pins, tally pins)) := by
  apply foldlM_eq_safe (fun pins => (pins, tally pins))
  intro pins name
  rw [attachPin, Netlist.attachPin]
  split
  · rfl
  · rw [bind_assoc]
    apply safe_bind_eq
    intro net hfind
    rw [lift_bind (htally pins ⟨name, net, scope.width net⟩ (hscope.index_lt hfind)),
      lift_bind (width_eq_some hscope hfind)]
    rfl

theorem inputs_eq_safe (names : List String) :
    names.foldlM (attachPin scope true) ([], Array.replicate scope.nets.size 0) =
      safe (attachPins scope names >>= fun pins =>
        .ok (pins, driverCounts scope.nets.size (pins.map Pin.net))) := by
  apply foldlM_attachPin_eq_safe hscope (fun pins => driverCounts scope.nets.size (pins.map Pin.net))
  intro pins pin hpin
  rw [List.map_append]
  exact count_eq_some hpin _

theorem outputs_eq_safe (names : List String) (drivers : Array Nat) :
    names.foldlM (attachPin scope false) ([], drivers) =
      safe (attachPins scope names >>= fun pins => .ok (pins, drivers)) :=
  foldlM_attachPin_eq_safe hscope (fun _ => drivers) (fun _ _ _ => rfl) names

end Scope

/-!
### Agreement on equations
-/

theorem producers_concat (size : Nat) (gates : List Gate) (gate : Gate) :
    producers size (gates ++ [gate]).toArray =
      (producers size gates.toArray).setIfInBounds gate.output.index (some gates.length) := by
  simp [producers, List.zipIdx_append]

theorem gatesFrom_concat (roms rams : Nat) (parts : List Part) (part : Part) :
    Part.gatesFrom roms rams (parts ++ [part]) = Part.gatesFrom roms rams parts ++
      (part.gate? (roms + Part.romCount parts) (rams + Part.ramCount parts)).toList := by
  induction parts generalizing roms rams with
  | nil =>
      rw [List.nil_append, Part.gatesFrom_cons]
      simp [Part.gatesFrom, Part.romCount, Part.ramCount]
  | cons first rest ih =>
      rw [List.cons_append, Part.gatesFrom_cons, Part.gatesFrom_cons, ih, Part.romCount_cons first rest,
        Part.ramCount_cons first rest, List.append_assoc, Nat.add_assoc, Nat.add_assoc]

namespace Tables

variable {size : Nat} {drivers : Array Nat} {parts : List Part} {part : Part}

theorem pushGate?_ofParts (h : part.target.index < size) :
    (ofParts size drivers parts).pushGate?
        (part.gate? (Part.romCount parts) (Part.ramCount parts)) =
      some { ofParts size drivers parts with
        producer := producers size (Part.gatesFrom 0 0 (parts ++ [part])).toArray
        gates := (Part.gatesFrom 0 0 (parts ++ [part])).toArray } := by
  have hgates := gatesFrom_concat 0 0 parts part
  rw [Nat.zero_add, Nat.zero_add] at hgates
  rw [hgates]
  cases hgate : part.gate? (Part.romCount parts) (Part.ramCount parts) with
  | none => simp [pushGate?, ofParts]
  | some gate =>
      have hlt : gate.output.index < (ofParts size drivers parts).producer.size := by
        rw [(Part.gate?_eq_some hgate).1, ofParts, size_producers]
        exact h
      rw [pushGate?, bind_eq (store_eq_some hlt _)]
      simp [ofParts, producers_concat]

theorem place_ofParts (h : part.target.index < size) :
    (ofParts size drivers parts).place part = some (ofParts size drivers (parts ++ [part])) := by
  rw [place]
  -- a block is numbered by the blocks before it, so the lists give the counts of the parts
  change (pushGate? _ (part.gate? (Part.romCount parts) (Part.ramCount parts)) >>= _) = _
  rw [bind_eq (pushGate?_ofParts h)]
  simp only [ofParts, filterMap_concat]

theorem after_nil (size : Nat) (pins : List Pin) : after size pins [] =
    ⟨driverCounts size (pins.map Pin.net), Array.replicate size none, #[], [], [], []⟩ := by
  rw [after, List.map_nil, List.append_nil]
  rfl

theorem place_after {pins : List Pin} (h : part.target.index < size) :
    { after size pins parts with
      drivers := driverCounts size (pins.map Pin.net ++ parts.map Part.target ++ [part.target]) }.place
        part = some (after size pins (parts ++ [part])) := by
  refine (place_ofParts h).trans ?_
  rw [after, List.map_append, ← List.append_assoc]
  rfl

end Tables

section Scope

variable {scope : Scope} (hscope : scope.Proper)

include hscope

theorem equation_eq_safe (pins : List Pin) (parts : List Part) (eq : Equation) :
    equation scope (.after scope.nets.size pins parts) eq =
      safe (eq.part scope >>= fun part => .ok (.after scope.nets.size pins (parts ++ [part]))) := by
  rw [equation, Equation.part, bind_assoc]
  apply safe_bind_eq
  intro target hfind
  have htarget := hscope.index_lt hfind
  have hcount : count true (Tables.after scope.nets.size pins parts).drivers target = some _ :=
    count_eq_some htarget _
  rw [lift_bind (width_eq_some hscope hfind), lift_bind hcount, bind_assoc]
  apply safe_bind_eq
  intro _ hshape
  rw [element_eq_safe hscope eq _ hshape, bind_assoc]
  apply safe_bind_eq
  intro element _
  exact congrArg liftM (Tables.place_after htarget)

/-- All equations extend the tables by their parts. -/
theorem foldlM_equation_eq_safe (pins : List Pin) (eqs : List Equation) :
    eqs.foldlM (equation scope)
        ⟨driverCounts scope.nets.size (pins.map Pin.net), Array.replicate scope.nets.size none, #[], [],
          [], []⟩ =
      safe (eqs.mapM (fun eq => eq.part scope) >>= fun parts =>
        .ok (.after scope.nets.size pins parts)) := by
  have hstep : ∀ (parts : List Part) (eq : Equation),
      equation scope (.after scope.nets.size pins parts) eq =
        safe ((eq.part scope >>= fun part => .ok (parts ++ [part])) >>= fun parts =>
          .ok (.after scope.nets.size pins parts)) := by
    intro parts eq
    rw [equation_eq_safe hscope, bind_assoc]
    rfl
  rw [← Tables.after_nil, foldlM_eq_safe (Tables.after scope.nets.size pins) hstep,
    foldlM_concat_eq_mapM, bind_assoc]
  rfl

end Scope

/-!
### Agreement on the whole description
-/

theorem cyclePath_eq_some {nets : Array NetInfo} {gates : Array Gate} {cycle : List Nat}
    (hcycle : ∀ g ∈ cycle, g < gates.size)
    (houtputs : ∀ gate ∈ gates.toList, gate.output.index < nets.size) :
    cyclePath nets gates cycle = some (Netlist.cyclePath nets gates cycle) := by
  have hnames : cycle.mapM (fun g => do
      let gate ← gates[g]?
      let net ← nets[gate.output.index]?
      some net.name) =
        some (cycle.map (fun g => (nets.getD (gates.getD g default).output.index default).name)) := by
    apply mapM_eq_some
    intro g hg
    have hgate : gates[g]? = some (gates.getD g default) := getElem?_eq_some_getD (hcycle g hg) default
    have hnet := houtputs _ (Array.mem_toList_iff.2 (Array.mem_of_getElem? hgate))
    rw [bind_eq hgate, bind_eq (getElem?_eq_some_getD hnet default)]
  rw [cyclePath, bind_eq hnames]
  rfl

/-- Once all checks have passed, ordering the gates accesses nothing that is not there. -/
theorem assemble_eq_safe {d : Description} {limit : Nat} {inputs outputs : List Pin} {parts : List Part}
    (h : d.Checked limit inputs outputs parts) :
    assemble d d.netTable inputs outputs (.after d.netTable.size inputs parts) =
      safe (match (Description.dependencies d.netTable.size parts).schedule with
        | .ok schedule => .ok (d.circuit inputs outputs parts schedule)
        | .error cycle => .error (.combinationalCycle
            (Netlist.cyclePath d.netTable (Part.gatesFrom 0 0 parts).toArray cycle))) := by
  have hsize : d.netTable.size = d.nets.length := Description.size_netTable d
  have hrange : (Description.dependencies d.netTable.size parts).InRange := by
    rw [hsize]
    exact h.inRange
  have hschedule : schedule (Part.gatesFrom 0 0 parts).toArray
      (producers d.netTable.size (Part.gatesFrom 0 0 parts).toArray) =
        some (Description.dependencies d.netTable.size parts).schedule := by
    apply schedule_eq_some _ hrange
    intro gate hgate id hid
    rw [size_producers, hsize]
    exact h.inputNets_lt (by simpa using hgate) hid
  refine (lift_bind hschedule _).trans ?_
  cases horder : (Description.dependencies d.netTable.size parts).schedule with
  | ok schedule => rfl
  | error cycle =>
      have hcycle := (Dependencies.schedule_error hrange horder).lt_size
      have hpath : cyclePath d.netTable (Part.gatesFrom 0 0 parts).toArray cycle =
          some (Netlist.cyclePath d.netTable (Part.gatesFrom 0 0 parts).toArray cycle) := by
        apply cyclePath_eq_some
        · intro g hg
          simpa [Description.dependencies] using hcycle g hg
        · intro gate hgate
          obtain ⟨eq, -, hfind, -⟩ := h.gate (by simpa using hgate)
          exact h.proper.index_lt hfind
      exact lift_bind hpath _

/-- In a description of at most 2³² nets, compilation never fails to access anything. -/
theorem compile_eq_safe {d : Description} (config : Config) (hsize : d.nets.length ≤ UInt32.size) :
    compile d config = safe (d.compile config) := by
  apply safe_bind_eq
  intro nets hnets
  obtain ⟨hnames, hwidths, rfl⟩ := declareNets_eq_ok_iff.1 hnets
  have hscope : (d.scope config.maxBusWidth).Proper :=
    Description.scope_proper hsize hnames hwidths config.maxBusWidth_le
  refine safe_map_bind_eq (inputs_eq_safe hscope d.inputs) ?_
  intro inputs hinputs
  refine safe_map_bind_eq (outputs_eq_safe hscope d.outputs _) ?_
  intro outputs houtputs
  refine safe_map_bind_eq (foldlM_equation_eq_safe hscope inputs d.equations) ?_
  intro parts hparts
  apply safe_bind_eq
  intro _ hdriven
  -- the last pass relies on all that the passes before it have checked
  obtain ⟨hinodup, hinputs⟩ := attachPins_eq_ok_iff.1 hinputs
  obtain ⟨honodup, houtputs⟩ := attachPins_eq_ok_iff.1 houtputs
  have hdriven := checkDrivers_eq_ok_iff.1 hdriven
  rw [Description.size_netTable] at hdriven
  exact assemble_eq_safe ⟨hnames, hwidths, config.maxBusWidth_le, hinodup, hinputs, honodup, houtputs,
    mapM_eq_ok_iff.1 hparts, hdriven⟩

end Guarded

end Netlist
