/-
Module: Netlist.Proofs.Reordered
Layer: Proofs
Purpose: Descriptions that list the same nets and equations in another order. They declare the same widths
  and drive the same nets, so one compiles exactly when the other does. A description is one of its own
  reorderings.
Imports: Netlist.Proofs.WellFormed
Main exports: Description.Reordered, Description.Reordered.width?_eq, Description.Reordered.wellFormed,
  Description.Reordered.exists_compile, Description.WellFormed.targets_nodup
-/
import Netlist.Proofs.WellFormed

namespace Netlist

namespace Description

/-- Two descriptions have the same nets and the same equations, not necessarily in the same order. -/
structure Reordered (d d' : Description) : Prop where
  name_eq : d.name = d'.name
  inputs_eq : d.inputs = d'.inputs
  outputs_eq : d.outputs = d'.outputs
  nets : d.nets.Perm d'.nets
  equations : d.equations.Perm d'.equations

variable {d d' : Description} {limit : Nat}

theorem Reordered.refl (d : Description) : d.Reordered d :=
  ⟨rfl, rfl, rfl, .refl _, .refl _⟩

theorem Reordered.symm (h : d.Reordered d') : d'.Reordered d :=
  ⟨h.name_eq.symm, h.inputs_eq.symm, h.outputs_eq.symm, h.nets.symm, h.equations.symm⟩

/-- When the names of nets differ, every declaration is found by its name. -/
theorem width?_eq_some_iff_mem (hnames : (d.nets.map NetDecl.name).Nodup) {name : String} {w : Nat} :
    d.width? name = some w ↔ ∃ decl ∈ d.nets, decl.name = name ∧ decl.width.toNat = w := by
  rw [width?, Option.map_eq_some_iff]
  constructor
  · rintro ⟨decl, hfind, hw⟩
    exact ⟨decl, List.mem_of_find?_eq_some hfind, by simpa using List.find?_some hfind, hw⟩
  · rintro ⟨decl, hdecl, hname, hw⟩
    have hsome : (d.nets.find? (fun other => other.name == name)).isSome = true :=
      List.find?_isSome.2 ⟨decl, hdecl, by simpa using hname⟩
    obtain ⟨found, hfound⟩ := Option.isSome_iff_exists.1 hsome
    have hfoundName : found.name = name := by simpa using List.find?_some hfound
    have hsame : found = decl :=
      List.inj_on_of_nodup_map hnames (List.mem_of_find?_eq_some hfound) hdecl
        (hfoundName.trans hname.symm)
    exact ⟨found, hfound, hsame ▸ hw⟩

/-- Every net has one driver, so no two equations have the same target. -/
theorem WellFormed.targets_nodup (h : d.WellFormed limit) :
    (d.equations.map Equation.target).Nodup := by
  rw [List.nodup_iff_count_le_one]
  intro name
  by_cases hmem : name ∈ d.equations.map Equation.target
  · obtain ⟨eq, heq, rfl⟩ := List.mem_map.1 hmem
    obtain ⟨decl, hdecl, hname⟩ := List.mem_map.1 (h.targets_declared eq heq)
    have hcount := h.driven decl hdecl
    rw [hname, List.count_append] at hcount
    omega
  · rw [List.count_eq_zero_of_not_mem hmem]
    exact Nat.zero_le 1

/-- Every net is an input pin or the target of an equation. -/
theorem WellFormed.input_or_target (h : d.WellFormed limit) {name : String}
    (hname : name ∈ d.nets.map NetDecl.name) :
    name ∈ d.inputs ∨ ∃ eq ∈ d.equations, eq.target = name := by
  obtain ⟨decl, hdecl, rfl⟩ := List.mem_map.1 hname
  have hmem : decl.name ∈ d.inputs ++ d.equations.map Equation.target := by
    rw [← List.count_pos_iff, h.driven decl hdecl]
    exact Nat.one_pos
  rwa [List.mem_append, List.mem_map] at hmem

namespace Reordered

variable (h : d.Reordered d')

include h

theorem mem_names_iff {name : String} :
    name ∈ d.nets.map NetDecl.name ↔ name ∈ d'.nets.map NetDecl.name :=
  (h.nets.map NetDecl.name).mem_iff

theorem width?_eq (hnames : (d.nets.map NetDecl.name).Nodup) : d.width? = d'.width? := by
  have hnames' := (h.nets.map NetDecl.name).nodup_iff.1 hnames
  funext name
  refine Option.ext (fun w => ?_)
  rw [width?_eq_some_iff_mem hnames, width?_eq_some_iff_mem hnames']
  simp only [h.nets.mem_iff]

theorem follows_eq : d.Follows = d'.Follows := by
  funext a b
  simp only [Follows, h.equations.mem_iff]

/-- Reordering keeps a description well formed. -/
theorem wellFormed (hd : d.WellFormed limit) : d'.WellFormed limit where
  names := (h.nets.map NetDecl.name).nodup_iff.1 hd.names
  widths := fun decl hdecl => hd.widths decl (h.nets.mem_iff.2 hdecl)
  inputs_nodup := h.inputs_eq ▸ hd.inputs_nodup
  inputs_declared := fun name hname =>
    h.mem_names_iff.1 (hd.inputs_declared name (h.inputs_eq ▸ hname))
  outputs_nodup := h.outputs_eq ▸ hd.outputs_nodup
  outputs_declared := fun name hname =>
    h.mem_names_iff.1 (hd.outputs_declared name (h.outputs_eq ▸ hname))
  targets_declared := fun eq heq =>
    h.mem_names_iff.1 (hd.targets_declared eq (h.equations.mem_iff.2 heq))
  shapes := fun eq heq => hd.shapes eq (h.equations.mem_iff.2 heq)
  typed := by
    intro eq heq w hw
    rw [← h.width?_eq hd.names] at hw ⊢
    exact hd.typed eq (h.equations.mem_iff.2 heq) w hw
  driven := by
    intro decl hdecl
    have hperm := (h.equations.map Equation.target).append_left d.inputs
    rw [← h.inputs_eq, ← hperm.count_eq]
    exact hd.driven decl (h.nets.mem_iff.2 hdecl)
  acyclic := h.follows_eq ▸ hd.acyclic

/-- A reordered description compiles. -/
theorem exists_compile {config : Config} (hok : ∃ c, d.compile config = .ok c) :
    ∃ c, d'.compile config = .ok c := by
  obtain ⟨c, hc⟩ := hok
  obtain ⟨inputs, outputs, parts, schedule, hchecked, hschedule, -⟩ := compile_eq_ok_iff.1 hc
  have hacyclic := (Dependencies.schedule_ok_iff hchecked.inRange).1 ⟨schedule, hschedule⟩
  have hd' := h.wellFormed (hchecked.wellFormed (hchecked.acyclic_iff.1 hacyclic))
  obtain ⟨inputs', outputs', parts', hchecked'⟩ :=
    hd'.checked (h.nets.length_eq ▸ hchecked.size_le) config.maxBusWidth_le
  obtain ⟨schedule', hschedule'⟩ := (Dependencies.schedule_ok_iff hchecked'.inRange).2
    (hchecked'.acyclic_iff.2 hd'.acyclic)
  exact ⟨_, compile_eq_ok_iff.2 ⟨inputs', outputs', parts', schedule', hchecked', hschedule', rfl⟩⟩

end Reordered

end Description

end Netlist
