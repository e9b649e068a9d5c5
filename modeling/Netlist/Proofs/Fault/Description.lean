/-
Module: Netlist.Proofs.Fault.Description
Layer: Proofs
Purpose: Reports tell the truth. `Description.Fault` lists what can be wrong with a description, each with
  the report that names it, in terms of the description as it is written: names that are declared, listed or
  driven too often or not at all, widths that are not allowed, faults of equations, and nets that follow each
  other around a cycle. Compilation reports nothing else, whichever of its passes finds it, and refuses every
  description that has a fault.
Imports: Netlist.Proofs.Fault.Equation, Netlist.Proofs.WellFormed
Main exports: Description.Fault, Description.Fault.not_wellFormed, Description.fault_of_declareNets,
  Description.fault_of_part, Description.fault_of_checkDrivers, Description.Checked.fault_of_cycle,
  Description.compile_reports_faults
-/
import Netlist.Proofs.Fault.Equation
import Netlist.Proofs.WellFormed

namespace Netlist

open Relation (TransGen)

namespace Description

/-- What is wrong with a description under a limit of bus widths. -/
inductive Fault (d : Description) (limit : Nat) : NetlistError → Prop where
  | duplicateNet {name : String} (twice : 2 ≤ (d.nets.map NetDecl.name).count name) :
      Fault d limit (.duplicateNet name)
  | netWidth {decl : NetDecl} (declared : decl ∈ d.nets)
      (forbidden : decl.width.toNat = 0 ∨ limit < decl.width.toNat) :
      Fault d limit (.invalidWidth decl.name decl.width.toNat limit)
  | duplicatePin {name : String} (twice : 2 ≤ d.inputs.count name ∨ 2 ≤ d.outputs.count name) :
      Fault d limit (.duplicatePin name)
  | unknownPin {name : String} (listed : name ∈ d.inputs ∨ name ∈ d.outputs)
      (undeclared : name ∉ d.nets.map NetDecl.name) : Fault d limit (.unknownNet name)
  | unknownTarget {eq : Equation} (given : eq ∈ d.equations)
      (undeclared : eq.target ∉ d.nets.map NetDecl.name) : Fault d limit (.unknownNet eq.target)
  | equation {eq : Equation} {w : Nat} {fault : NetlistError} (given : eq ∈ d.equations)
      (target : d.width? eq.target = some w) (wrong : eq.Fault d.width? limit w fault) :
      Fault d limit fault
  | multipleDrivers {name : String} {count : Nat} (declared : name ∈ d.nets.map NetDecl.name)
      (drivers : (d.inputs ++ d.equations.map Equation.target).count name = count)
      (several : 2 ≤ count) : Fault d limit (.multipleDrivers name count)
  | undriven {name : String} (declared : name ∈ d.nets.map NetDecl.name)
      (drivers : name ∉ d.inputs ++ d.equations.map Equation.target) : Fault d limit (.undriven name)
  /-- Different nets of which each follows the one before, and the first the last. -/
  | cycle {first : String} {rest : List String} (nodup : (first :: rest).Nodup)
      (follows : (first :: rest ++ [first]).IsChain d.Follows) :
      Fault d limit (.combinationalCycle (first :: rest ++ [first]))

variable {d : Description} {limit : Nat} {fault : NetlistError}

/-!
### Well formed descriptions have no fault
-/

theorem transGen_of_cycle {first : String} {rest : List String}
    (h : (first :: rest ++ [first]).IsChain d.Follows) : TransGen d.Follows first first := by
  have hpath := List.relationReflTransGen_of_exists_isChain (first :: rest)
    h.left_of_append (List.cons_ne_nil first rest)
  have hlast : d.Follows ((first :: rest).getLast (List.cons_ne_nil first rest)) first :=
    h.rel_getLast_head_of_append _ (List.cons_ne_nil first [])
  exact TransGen.tail' hpath hlast

/-- A description with a fault is not well formed. -/
theorem Fault.not_wellFormed (h : d.Fault limit fault) : ¬ d.WellFormed limit := by
  intro hd
  have twice : ∀ {names : List String} {name : String}, names.Nodup → ¬ 2 ≤ names.count name := by
    intro names name hnodup htwice
    have := List.nodup_iff_count_le_one.1 hnodup name
    omega
  have driven : ∀ {name : String}, name ∈ d.nets.map NetDecl.name →
      (d.inputs ++ d.equations.map Equation.target).count name = 1 := by
    intro name hname
    obtain ⟨decl, hdecl, rfl⟩ := List.mem_map.1 hname
    exact hd.driven decl hdecl
  cases h with
  | duplicateNet htwice => exact twice hd.names htwice
  | netWidth declared forbidden =>
      have := hd.widths _ declared
      omega
  | duplicatePin htwice =>
      rcases htwice with htwice | htwice
      · exact twice hd.inputs_nodup htwice
      · exact twice hd.outputs_nodup htwice
  | unknownPin listed undeclared =>
      rcases listed with listed | listed
      · exact undeclared (hd.inputs_declared _ listed)
      · exact undeclared (hd.outputs_declared _ listed)
  | unknownTarget given undeclared => exact undeclared (hd.targets_declared _ given)
  | equation given target wrong => exact wrong.not_wellTyped (hd.typed _ given _ target)
  | multipleDrivers declared drivers several =>
      rw [driven declared] at drivers
      omega
  | undriven declared drivers =>
      have hcount := driven declared
      rw [List.count_eq_zero.2 drivers] at hcount
      omega
  | cycle nodup follows => exact hd.acyclic _ (transGen_of_cycle follows)

/-!
### Nets, pins and equations

The first three passes go through lists. A name that has been seen before occurs a second time.
-/

theorem two_le_count {name : String} {before after : List String} (h : name ∈ before) :
    2 ≤ (before ++ name :: after).count name := by
  have hpos := List.count_pos_iff.2 h
  rw [List.count_append, List.count_cons_self]
  omega

theorem fault_of_declareNets (h : declareNets limit d.nets = .error fault) : d.Fault limit fault := by
  obtain ⟨before, decl, after, nets, hnets, hbefore, hdecl⟩ := foldlM_eq_error_iff.1 h
  obtain ⟨-, -, -, rfl⟩ := foldlM_declareNet_eq_ok_iff.1 hbefore
  rw [declareNet] at hdecl
  simp only [isSome_findNet?_iff] at hdecl
  split at hdecl
  · next hforbidden =>
      cases hdecl
      exact .netWidth (by simp [hnets]) hforbidden
  · split at hdecl
    · next hseen =>
        cases hdecl
        have hmem : decl.name ∈ before.map NetDecl.name := by
          simpa [netInfo, Function.comp_def] using hseen
        refine .duplicateNet ?_
        rw [hnets, List.map_append, List.map_cons]
        exact two_le_count hmem
    · cases hdecl

/-- What is reported about a list of pins: a name that is listed twice or not declared. -/
theorem attachPins_eq_error {scope : Scope} {names : List String}
    (h : attachPins scope names = .error fault) :
    (∃ name, 2 ≤ names.count name ∧ fault = .duplicatePin name) ∨
      ∃ name ∈ names, Equation.declaredIn scope name = none ∧ fault = .unknownNet name := by
  obtain ⟨before, name, after, pins, rfl, hbefore, hname⟩ := foldlM_eq_error_iff.1 h
  obtain ⟨-, -, attached, hattached, rfl⟩ := foldlM_attachPin_eq_ok_iff.1 hbefore
  rw [attachPin] at hname
  split at hname
  · next hseen =>
      cases hname
      have hmem : name ∈ before := by
        rw [← Scope.pinNames_eq hattached]
        simpa using hseen
      exact .inl ⟨name, two_le_count hmem, rfl⟩
  · rcases bind_eq_error_iff.1 hname with hname | ⟨_, -, ⟨⟩⟩
    obtain ⟨hundeclared, rfl⟩ := Equation.find_eq_error_iff.1 hname
    exact .inr ⟨name, by simp, hundeclared, rfl⟩

variable (hsize : d.nets.length ≤ UInt32.size)

include hsize

theorem undeclared_of_declaredIn {name : String}
    (h : Equation.declaredIn (d.scope limit) name = none) : name ∉ d.nets.map NetDecl.name := by
  rw [Equation.declaredIn_scope limit hsize] at h
  rw [mem_names_iff, h]
  simp

theorem fault_of_attachPins {names : List String} (hnames : names = d.inputs ∨ names = d.outputs)
    (h : attachPins (d.scope limit) names = .error fault) : d.Fault limit fault := by
  rcases attachPins_eq_error h with ⟨name, htwice, rfl⟩ | ⟨name, hmem, hundeclared, rfl⟩
  · refine .duplicatePin ?_
    rcases hnames with rfl | rfl
    · exact .inl htwice
    · exact .inr htwice
  · refine .unknownPin ?_ (undeclared_of_declaredIn hsize hundeclared)
    rcases hnames with rfl | rfl
    · exact .inl hmem
    · exact .inr hmem

theorem fault_of_part {eq : Equation} (heq : eq ∈ d.equations)
    (h : eq.part (d.scope limit) = .error fault) : d.Fault limit fault := by
  rw [Equation.part, bind_eq_error_iff] at h
  rcases h with h | ⟨target, htarget, h⟩
  · obtain ⟨hundeclared, rfl⟩ := Equation.find_eq_error_iff.1 h
    exact .unknownTarget heq (undeclared_of_declaredIn hsize hundeclared)
  have hwidth : d.width? eq.target = some ((d.scope limit).width target) :=
    (width?_eq_some_iff hsize).2 ⟨target, htarget, rfl⟩
  have hfault : eq.Fault (Equation.declaredIn (d.scope limit)) limit ((d.scope limit).width target)
      fault := by
    rcases bind_eq_error_iff.1 h with h | ⟨_, hshape, h⟩
    · exact Equation.fault_of_checkShape h
    · rcases bind_eq_error_iff.1 h with h | ⟨_, -, ⟨⟩⟩
      exact Equation.fault_of_element hshape h
  rw [Equation.declaredIn_scope limit hsize] at hfault
  exact .equation heq hwidth hfault

omit hsize

/-!
### Drivers
-/

/-- What is reported about drivers: a position of the net table that is not driven once. -/
theorem checkDrivers_eq_error {nets : Array NetInfo} {driven : List NetId}
    (h : checkDrivers nets driven = .error fault) :
    ∃ i net, nets[i]? = some net ∧
      ((driven.map NetId.index).count i = 0 ∧ fault = .undriven net.name ∨
        2 ≤ (driven.map NetId.index).count i ∧
          fault = .multipleDrivers net.name ((driven.map NetId.index).count i)) := by
  have hentry : ∀ {net : NetInfo} {count : Nat},
      (nets.toList.zip (driverCounts nets.size driven).toList).find? (fun e => e.2 != 1) =
        some (net, count) →
      count ≠ 1 ∧ ∃ i : Nat, nets[i]? = some net ∧ (driven.map NetId.index).count i = count := by
    intro net count hfind
    refine ⟨by simpa using List.find?_some hfind, ?_⟩
    obtain ⟨i, hi⟩ := List.mem_iff_getElem?.1 (List.mem_of_find?_eq_some hfind)
    rw [List.getElem?_zip_eq_some, Array.getElem?_toList, Array.getElem?_toList] at hi
    obtain ⟨hnet, hcount⟩ := hi
    rw [getElem?_driverCounts driven (Array.getElem?_eq_some_iff.1 hnet).1] at hcount
    exact ⟨i, hnet, Option.some.inj hcount⟩
  rw [checkDrivers] at h
  split at h
  · cases h
  · next net hfind =>
      cases h
      obtain ⟨-, i, hnet, hcount⟩ := hentry hfind
      exact ⟨i, net, hnet, .inl ⟨hcount, rfl⟩⟩
  · next net count hzero hfind =>
      cases h
      obtain ⟨hne, i, hnet, hcount⟩ := hentry hfind
      have hpos : count ≠ 0 := hzero
      exact ⟨i, net, hnet, .inr ⟨by omega, by rw [hcount]⟩⟩

/-- A position of the table is a declared net, and it is driven as often as its name. -/
theorem fault_of_checkDrivers (hscope : (d.scope limit).Proper) {ids : List NetId}
    (hids : List.Forall₂ (fun name id => (d.scope limit).find name = .ok id)
      (d.inputs ++ d.equations.map Equation.target) ids)
    (h : checkDrivers d.netTable ids = .error fault) : d.Fault limit fault := by
  obtain ⟨i, net, hnet, hcounts⟩ := checkDrivers_eq_error h
  have hdeclared : net.name ∈ d.nets.map NetDecl.name := by
    have hmem : net ∈ d.nets.map netInfo := by
      simpa [netTable] using Array.mem_of_getElem? hnet
    obtain ⟨decl, hdecl, rfl⟩ := List.mem_map.1 hmem
    exact List.mem_map.2 ⟨decl, hdecl, rfl⟩
  rw [hscope.count_eq hids hnet] at hcounts
  rcases hcounts with ⟨hcount, rfl⟩ | ⟨hcount, rfl⟩
  · exact .undriven hdeclared (List.count_eq_zero.1 hcount)
  · exact .multipleDrivers hdeclared rfl hcount

/-!
### Cycles
-/

/-- The name of the net that a gate drives. -/
def gateName (d : Description) (parts : List Part) (g : Nat) : String :=
  (d.netTable.getD ((Part.gatesFrom 0 0 parts).toArray.getD g default).output.index default).name

theorem size_dependencies (size : Nat) (parts : List Part) :
    (dependencies size parts).size = (Part.gatesFrom 0 0 parts).length := by
  simp [dependencies]

namespace Checked

variable {inputs outputs : List Pin} {parts : List Part} (h : d.Checked limit inputs outputs parts)

include h

theorem gateOf_gateName {g : Nat} (hg : g < (Part.gatesFrom 0 0 parts).length) :
    d.GateOf limit parts (d.gateName parts g) g := by
  obtain ⟨eq, -, hfind, -⟩ := h.gate (List.getElem_mem hg)
  obtain ⟨net, hnet, -⟩ := h.proper.find_eq_ok_iff.1 hfind
  have hname : d.gateName parts g = net.name := by
    have hnet' : d.netTable[(Part.gatesFrom 0 0 parts)[g].output.index]? = some net := hnet
    simp [gateName, Array.getD_eq_getD_getElem?, hg, hnet']
  exact ⟨_, List.getElem?_eq_getElem hg, h.proper.find_eq_ok_iff.2 ⟨net, hnet, hname.symm⟩⟩

/-- The net of a gate follows the nets of the gates that feed it. -/
theorem follows_gateName {source g : Nat} (hfeeds : (dependencies d.nets.length parts).Feeds source g) :
    d.Follows (d.gateName parts source) (d.gateName parts g) := by
  have hsource := h.inRange _ _ hfeeds
  have hg := hfeeds.lt_size
  rw [size_dependencies] at hsource hg
  obtain ⟨name, hname, hfollows⟩ := h.follows_of_feeds hfeeds (h.gateOf_gateName hsource)
  cases h.gateOf_name_unique hname (h.gateOf_gateName hg)
  exact hfollows

/-- A cycle of gates is reported as a cycle of nets. -/
theorem fault_of_cycle {cycle : List Nat} (hcycle : (dependencies d.nets.length parts).IsCycle cycle) :
    d.Fault limit
      (.combinationalCycle (cyclePath d.netTable (Part.gatesFrom 0 0 parts).toArray cycle)) := by
  have hrange := hcycle.lt_size
  obtain ⟨hne, hnodup, hchain, hcloses⟩ := hcycle
  rw [size_dependencies] at hrange
  rcases cycle with _ | ⟨g, rest⟩
  · exact absurd rfl hne
  have hclosed : (g :: rest ++ [g]).IsChain (dependencies d.nets.length parts).Feeds := by
    refine hchain.append (List.isChain_singleton g) ?_
    intro last hlast first hfirst
    rw [List.getLast?_eq_some_getLast hne] at hlast
    cases hlast
    cases hfirst
    exact hcloses
  have hfollows := List.isChain_map_of_isChain (d.gateName parts)
    (fun _ _ hfeeds => h.follows_gateName hfeeds) hclosed
  have hnames : ((g :: rest).map (d.gateName parts)).Nodup := by
    refine List.Nodup.map_on ?_ hnodup
    intro a ha b hb hab
    have hga := h.gateOf_gateName (hrange a ha)
    have hgb := h.gateOf_gateName (hrange b hb)
    rw [← hab] at hgb
    exact h.gateOf_unique hga hgb
  rw [List.map_append] at hfollows
  exact .cycle hnames hfollows

end Checked

/-!
### Compilation
-/

variable {config : Config}

theorem fault_of_compile (hsize : d.nets.length ≤ UInt32.size) (h : d.compile config = .error fault) :
    d.Fault config.maxBusWidth fault := by
  rw [compile] at h
  rcases bind_eq_error_iff.1 h with h | ⟨nets, hnets, h⟩
  · exact fault_of_declareNets h
  obtain ⟨hnames, hwidths, rfl⟩ := declareNets_eq_ok_iff.1 hnets
  rcases bind_eq_error_iff.1 h with h | ⟨inputs, hinputs, h⟩
  · exact fault_of_attachPins hsize (.inl rfl) h
  rcases bind_eq_error_iff.1 h with h | ⟨outputs, houtputs, h⟩
  · exact fault_of_attachPins hsize (.inr rfl) h
  obtain ⟨hinodup, hinputs⟩ := attachPins_eq_ok_iff.1 hinputs
  obtain ⟨honodup, houtputs⟩ := attachPins_eq_ok_iff.1 houtputs
  rcases bind_eq_error_iff.1 h with h | ⟨parts, hparts, h⟩
  · obtain ⟨k, eq, hk, heq, -⟩ := mapM_eq_error_iff.1 h
    exact fault_of_part hsize (List.mem_of_getElem? hk) heq
  rw [mapM_eq_ok_iff] at hparts
  rcases bind_eq_error_iff.1 h with h | ⟨_, hdriven, h⟩
  · exact fault_of_checkDrivers (scope_proper hsize hnames hwidths config.maxBusWidth_le)
      (driven_names hinputs hparts) h
  rw [checkDrivers_eq_ok_iff, size_netTable] at hdriven
  have hchecked : d.Checked config.maxBusWidth inputs outputs parts :=
    ⟨hnames, hwidths, config.maxBusWidth_le, hinodup, hinputs, honodup, houtputs, hparts, hdriven⟩
  simp only [size_netTable] at h
  split at h
  · cases h
  · next cycle hschedule =>
      cases h
      exact hchecked.fault_of_cycle (Dependencies.schedule_error hchecked.inRange hschedule)

theorem wellFormed_of_compile {c : Circuit} (h : d.compile config = .ok c) :
    d.WellFormed config.maxBusWidth := by
  obtain ⟨inputs, outputs, parts, schedule, hchecked, hschedule, -⟩ := compile_eq_ok_iff.1 h
  have hacyclic := (Dependencies.schedule_ok_iff hchecked.inRange).1 ⟨schedule, hschedule⟩
  exact hchecked.wellFormed (hchecked.acyclic_iff.1 hacyclic)

/-- Every report of compilation tells the truth: whatever is reported about a description is a fault that the
    description has, with the names, counts and widths of the report. The other way round, a description that
    has any of the faults is refused. -/
theorem compile_reports_faults (d : Description) (config : Config)
    (hsize : d.nets.length ≤ UInt32.size) :
    (∀ fault, d.compile config = .error fault → d.Fault config.maxBusWidth fault) ∧
    (∀ fault, d.Fault config.maxBusWidth fault → ∃ reported, d.compile config = .error reported) := by
  refine ⟨fun fault h => fault_of_compile hsize h, fun fault hfault => ?_⟩
  cases hcompile : d.compile config with
  | error reported => exact ⟨reported, rfl⟩
  | ok c => exact absurd (wellFormed_of_compile hcompile) hfault.not_wellFormed

/-- A memory whose read address is a bit of what it reads. -/
def ring : Description where
  name := "ring"
  inputs := ["set"]
  outputs := ["top"]
  nets := [⟨"set", 1⟩, ⟨"top", 1⟩, ⟨"cell", 2⟩, ⟨"pair", 3⟩]
  equations := [
    { target := "top", op := .select, args := [.net "pair"], params := [2] },
    { target := "cell", op := .ram,
      args := [.net "top", .net "set", .net "set", .const 3 none], params := [1, 2] },
    { target := "pair", op := .concat, args := [.net "cell", .net "set"] }]

/-- The cycle of the ring is reported, and it is one. -/
theorem ring_reports_cycle :
    ring.nets.length ≤ UInt32.size ∧
      ring.compile .standard = .error (.combinationalCycle ["cell", "pair", "top", "cell"]) ∧
      ring.Fault Config.standard.maxBusWidth
        (.combinationalCycle ["cell", "pair", "top", "cell"]) := by
  have hsize : ring.nets.length ≤ UInt32.size := by decide
  have hcompile : ring.compile .standard =
      .error (.combinationalCycle ["cell", "pair", "top", "cell"]) := by
    decide +kernel
  exact ⟨hsize, hcompile, (compile_reports_faults ring .standard hsize).1 _ hcompile⟩

end Description

end Netlist
