/-
Module: Netlist.Proofs.WellFormed
Layer: Proofs
Purpose: The descriptions that compile. `Description.WellFormed` says in terms of names and declared
  widths alone when a description makes sense: names differ, widths are allowed, equations are well
  typed, every net has one driver, and no net follows itself within a step. Compilation accepts exactly
  these descriptions. A cycle of gates is a cycle of names and the other way round, because a gate and
  the name of the net that it drives determine each other.
Imports: Netlist.Proofs.Assembly
Main exports: Description.Follows, Description.WellFormed, Description.Checked.acyclic_iff,
  Description.WellFormed.checked, Description.exists_compile_iff_wellFormed
-/
import Netlist.Proofs.Assembly

namespace Netlist

open Relation (TransGen)

namespace Description

/-- Within a step, net `b` follows net `a`: its equation reads `a`. Registers follow nothing, and a RAM
    follows its read address only. -/
def Follows (d : Description) (a b : String) : Prop :=
  ∃ eq ∈ d.equations, eq.target = b ∧ .net a ∈ eq.reads

/-- The descriptions that make sense under a limit of bus widths. -/
structure WellFormed (d : Description) (limit : Nat) : Prop where
  /-- The names of nets differ. -/
  names : (d.nets.map NetDecl.name).Nodup
  /-- The widths of nets are allowed. -/
  widths : ∀ decl ∈ d.nets, 0 < decl.width.toNat ∧ decl.width.toNat ≤ limit
  /-- The names of input pins differ. -/
  inputs_nodup : d.inputs.Nodup
  /-- Input pins are nets. -/
  inputs_declared : ∀ name ∈ d.inputs, name ∈ d.nets.map NetDecl.name
  /-- The names of output pins differ. -/
  outputs_nodup : d.outputs.Nodup
  /-- Output pins are nets. -/
  outputs_declared : ∀ name ∈ d.outputs, name ∈ d.nets.map NetDecl.name
  /-- Targets are nets. -/
  targets_declared : ∀ eq ∈ d.equations, eq.target ∈ d.nets.map NetDecl.name
  /-- Equations have the operands and parameters of their operation, and only registers have a power-on
      value. -/
  shapes : ∀ eq ∈ d.equations, eq.args.length = eq.op.signature.1 ∧
    eq.params.length = eq.op.signature.2 ∧ (eq.init.isSome = true → eq.op = .reg)
  /-- Equations obey the rule of their operation at the width of their target. -/
  typed : ∀ eq ∈ d.equations, ∀ w, d.width? eq.target = some w → eq.WellTyped d.width? limit w
  /-- Every net is an input pin or the target of an equation, once. -/
  driven : ∀ decl ∈ d.nets, (d.inputs ++ d.equations.map Equation.target).count decl.name = 1
  /-- No net follows itself. -/
  acyclic : ∀ name, ¬ TransGen d.Follows name name

variable {d : Description} {limit : Nat} {inputs outputs : List Pin} {parts : List Part}

/-!
### Cycles of gates and cycles of names
-/

/-- Gate number `g` drives the net with a given name. -/
def GateOf (d : Description) (limit : Nat) (parts : List Part) (name : String) (g : Nat) : Prop :=
  ∃ gate, (Part.gatesFrom 0 0 parts)[g]? = some gate ∧ (d.scope limit).find name = .ok gate.output

namespace Checked

variable (h : d.Checked limit inputs outputs parts)

include h

theorem gateOf_name_unique {a b : String} {g : Nat} (ha : d.GateOf limit parts a g)
    (hb : d.GateOf limit parts b g) : a = b := by
  obtain ⟨gate, hgate, hfind⟩ := ha
  obtain ⟨gate', hgate', hfind'⟩ := hb
  rw [hgate] at hgate'
  cases hgate'
  exact h.proper.find_inj hfind hfind'

theorem gateOf_unique {a : String} {g g' : Nat} (hg : d.GateOf limit parts a g)
    (hg' : d.GateOf limit parts a g') : g = g' := by
  obtain ⟨gate, hgate, hfind⟩ := hg
  obtain ⟨gate', hgate', hfind'⟩ := hg'
  rw [hfind] at hfind'
  injection hfind' with hout
  have hlt := (List.getElem?_eq_some_iff.1 hgate).1
  exact (List.getElem?_inj (by simpa using hlt) h.outputs_gates_nodup).1
    (by simp [hgate, hgate', hout])

/-- A net that follows another one has a gate. -/
theorem exists_gateOf {a b : String} (hab : d.Follows a b) : ∃ g, d.GateOf limit parts b g := by
  obtain ⟨eq, heq, rfl, hmem⟩ := hab
  obtain ⟨gate, hgate, hfind, -⟩ := h.exists_gate heq (List.ne_nil_of_mem hmem)
  obtain ⟨g, hg⟩ := List.mem_iff_getElem?.1 hgate
  exact ⟨g, gate, hg, hfind⟩

/-- The gate of a net feeds the gates of the nets that follow it. -/
theorem feeds_of_follows {a b : String} {g : Nat} (hab : d.Follows a b)
    (hg : d.GateOf limit parts a g) :
    ∃ g', d.GateOf limit parts b g' ∧ (dependencies d.nets.length parts).Feeds g g' := by
  obtain ⟨eq, heq, rfl, hmem⟩ := hab
  obtain ⟨other, hother, hfinda⟩ := hg
  obtain ⟨gate, hgate, hfind, hreads⟩ := h.exists_gate heq (List.ne_nil_of_mem hmem)
  obtain ⟨g', hg'⟩ := List.mem_iff_getElem?.1 hgate
  obtain ⟨s, hs, hstands⟩ := forall₂_mem_left hreads hmem
  have hnet : s = .net other.output := hstands.net_iff.2 ⟨a, rfl, hfinda⟩
  refine ⟨g', ⟨gate, hg', hfind⟩, h.feeds_iff.2 ⟨gate, other, hg', hother, ?_⟩⟩
  exact List.mem_filterMap.2 ⟨s, hs, by rw [hnet]; rfl⟩

/-- When a gate feeds another, the net of the second follows the net of the first. -/
theorem follows_of_feeds {a : String} {source g : Nat}
    (hfeeds : (dependencies d.nets.length parts).Feeds source g)
    (ha : d.GateOf limit parts a source) : ∃ b, d.GateOf limit parts b g ∧ d.Follows a b := by
  obtain ⟨gate, other, hg, hsource, hmem⟩ := h.feeds_iff.1 hfeeds
  obtain ⟨eq, heq, hfind, hreads⟩ := h.gate (List.mem_of_getElem? hg)
  obtain ⟨s, hs, hnet⟩ := List.mem_filterMap.1 hmem
  obtain ⟨operand, hoperand, hstands⟩ := forall₂_mem_right hreads hs
  cases s with
  | const value => cases hnet
  | net id =>
      cases hnet
      obtain ⟨name, rfl, hname⟩ := hstands.net_iff.1 rfl
      have hsame : a = name := by
        obtain ⟨_, hsource', hfinda⟩ := ha
        rw [hsource] at hsource'
        cases hsource'
        exact h.proper.find_inj hfinda hname
      exact ⟨eq.target, ⟨gate, hg, hfind⟩, eq, heq, rfl, hsame ▸ hoperand⟩

theorem transGen_feeds {a b : String} (hab : TransGen d.Follows a b) {g : Nat}
    (hg : d.GateOf limit parts a g) : ∃ g', d.GateOf limit parts b g' ∧
      TransGen (dependencies d.nets.length parts).Feeds g g' := by
  induction hab with
  | single hab =>
      obtain ⟨g', hg', hfeeds⟩ := h.feeds_of_follows hab hg
      exact ⟨g', hg', .single hfeeds⟩
  | tail _ hbc ih =>
      obtain ⟨g', hg', hpath⟩ := ih
      obtain ⟨g'', hg'', hfeeds⟩ := h.feeds_of_follows hbc hg'
      exact ⟨g'', hg'', hpath.tail hfeeds⟩

theorem transGen_follows {source g : Nat}
    (hpath : TransGen (dependencies d.nets.length parts).Feeds source g) {a : String}
    (ha : d.GateOf limit parts a source) : ∃ b, d.GateOf limit parts b g ∧
      TransGen d.Follows a b := by
  induction hpath with
  | single hfeeds =>
      obtain ⟨b, hb, hab⟩ := h.follows_of_feeds hfeeds ha
      exact ⟨b, hb, .single hab⟩
  | tail _ hfeeds ih =>
      obtain ⟨b, hb, hab⟩ := ih
      obtain ⟨c, hc, hbc⟩ := h.follows_of_feeds hfeeds hb
      exact ⟨c, hc, hab.tail hbc⟩

/-- The gates of a checked description can be ordered exactly when no net follows itself. -/
theorem acyclic_iff : (dependencies d.nets.length parts).Acyclic ↔
    ∀ name, ¬ TransGen d.Follows name name := by
  constructor
  · intro hacyclic name hcycle
    -- the last step of the cycle shows that the net has a gate
    obtain ⟨before, -, hlast⟩ := TransGen.tail'_iff.1 hcycle
    obtain ⟨g, hg⟩ := h.exists_gateOf hlast
    obtain ⟨g', hg', hpath⟩ := h.transGen_feeds hcycle hg
    cases h.gateOf_unique hg hg'
    exact hacyclic g hpath
  · intro hnames g hcycle
    obtain ⟨before, -, hlast⟩ := TransGen.tail'_iff.1 hcycle
    obtain ⟨gate, -, hget, -⟩ := h.feeds_iff.1 hlast
    obtain ⟨eq, -, hfind, -⟩ := h.gate (List.mem_of_getElem? hget)
    obtain ⟨b, hb, hpath⟩ := h.transGen_follows hcycle ⟨gate, hget, hfind⟩
    cases h.gateOf_name_unique hb ⟨gate, hget, hfind⟩
    exact hnames _ hpath

end Checked

/-!
### Accepted descriptions
-/

/-- The identifiers of pins and parts belong to the names that the description drives. -/
theorem driven_names (hinputs : List.Forall₂ (d.scope limit).Attaches d.inputs inputs)
    (hparts : List.Forall₂ (fun eq part => eq.part (d.scope limit) = .ok part) d.equations parts) :
    List.Forall₂ (fun name id => (d.scope limit).find name = .ok id)
      (d.inputs ++ d.equations.map Equation.target)
      (inputs.map Pin.net ++ parts.map Part.target) := by
  refine List.rel_append ?_ ?_
  · rw [List.forall₂_map_right_iff]
    exact hinputs.imp (fun _ _ hpin => hpin.2.1)
  · rw [List.forall₂_map_left_iff, List.forall₂_map_right_iff]
    exact hparts.imp (fun _ _ hpart => (Equation.part_eq_ok_iff.1 hpart).1)

/-- Identifiers drive every position once exactly when their names drive every net once. -/
theorem drivenOnce_iff (hscope : (d.scope limit).Proper) {names : List String} {ids : List NetId}
    (hids : List.Forall₂ (fun name id => (d.scope limit).find name = .ok id) names ids) :
    DrivenOnce d.nets.length ids ↔ ∀ decl ∈ d.nets, names.count decl.name = 1 := by
  have hget : ∀ i (hi : i < d.nets.length), (d.scope limit).nets[i]? = some (netInfo d.nets[i]) := by
    intro i hi
    simp [scope, netTable, hi]
  constructor
  · intro h decl hdecl
    obtain ⟨i, hi, rfl⟩ := List.getElem_of_mem hdecl
    rw [← h i hi, hscope.count_eq hids (hget i hi)]
    rfl
  · intro h i hi
    rw [hscope.count_eq hids (hget i hi)]
    exact h _ (List.getElem_mem hi)

/-- Checks that pass leave a well formed description, if no net follows itself. -/
theorem Checked.wellFormed (h : d.Checked limit inputs outputs parts)
    (hacyclic : ∀ name, ¬ TransGen d.Follows name name) : d.WellFormed limit := by
  have hpins : ∀ {names : List String} {pins : List Pin},
      List.Forall₂ (d.scope limit).Attaches names pins →
      ∀ name ∈ names, name ∈ d.nets.map NetDecl.name := by
    intro names pins hattached name hname
    obtain ⟨pin, -, -, hfind, -⟩ := forall₂_mem_left hattached hname
    exact (mem_names_iff_find h.size_le).2 ⟨_, hfind⟩
  have hequations : ∀ eq ∈ d.equations, ∃ w, d.width? eq.target = some w ∧
      eq.WellTyped d.width? limit w := by
    intro eq heq
    obtain ⟨k, hk⟩ := List.mem_iff_getElem?.1 heq
    obtain ⟨part, -, hfind, -, hwidth, helem⟩ := h.part hk
    refine ⟨part.width, (width?_eq_some_iff h.size_le).2 ⟨_, hfind, hwidth.symm⟩, ?_⟩
    rw [← Equation.declaredIn_scope limit h.size_le]
    exact Equation.wellTyped_iff_elaborates.2 ⟨_, helem⟩
  refine ⟨h.names, h.widths, h.inputs_nodup, hpins h.inputs_attached, h.outputs_nodup,
    hpins h.outputs_attached, ?_, ?_, ?_, (drivenOnce_iff h.proper
      (driven_names h.inputs_attached h.parts_checked)).1 h.driven, hacyclic⟩
  · intro eq heq
    obtain ⟨w, hw, -⟩ := hequations eq heq
    exact mem_names_iff.2 ⟨w, hw⟩
  · intro eq heq
    obtain ⟨w, -, htyped⟩ := hequations eq heq
    exact htyped.shape
  · intro eq heq w hw
    obtain ⟨w', hw', htyped⟩ := hequations eq heq
    rw [hw] at hw'
    cases hw'
    exact htyped

/-- A well formed description passes the checks before scheduling. -/
theorem WellFormed.checked (h : d.WellFormed limit) (hsize : d.nets.length ≤ UInt32.size)
    (hlimit : limit ≤ Word.maxWidth) :
    ∃ inputs outputs parts, d.Checked limit inputs outputs parts := by
  have hscope : (d.scope limit).Proper := scope_proper hsize h.names h.widths hlimit
  have hpins : ∀ {names : List String}, (∀ name ∈ names, name ∈ d.nets.map NetDecl.name) →
      ∃ pins, List.Forall₂ (d.scope limit).Attaches names pins := by
    intro names hnames
    refine exists_forall₂ (fun name hname => ?_)
    obtain ⟨id, hid⟩ := (mem_names_iff_find hsize).1 (hnames name hname)
    exact ⟨⟨name, id, (d.scope limit).width id⟩, rfl, hid, rfl⟩
  obtain ⟨inputs, hinputs⟩ := hpins h.inputs_declared
  obtain ⟨outputs, houtputs⟩ := hpins h.outputs_declared
  obtain ⟨parts, hparts⟩ : ∃ parts, List.Forall₂
      (fun eq part => eq.part (d.scope limit) = .ok part) d.equations parts := by
    refine exists_forall₂ (fun eq heq => ?_)
    obtain ⟨id, hid⟩ : ∃ id, (d.scope limit).find eq.target = .ok id :=
      (mem_names_iff_find hsize).1 (h.targets_declared eq heq)
    have hwidth : d.width? eq.target = some ((d.scope limit).width id) :=
      (width?_eq_some_iff hsize).2 ⟨id, hid, rfl⟩
    have htyped := h.typed eq heq _ hwidth
    rw [← Equation.declaredIn_scope limit hsize] at htyped
    obtain ⟨element, helem⟩ := Equation.wellTyped_iff_elaborates.1 htyped
    exact ⟨⟨eq.target, id, (d.scope limit).width id, element⟩,
      Equation.part_eq_ok_iff.2 ⟨hid, rfl, rfl, helem⟩⟩
  refine ⟨inputs, outputs, parts, h.names, h.widths, hlimit, h.inputs_nodup, hinputs,
    h.outputs_nodup, houtputs, hparts, ?_⟩
  exact (drivenOnce_iff hscope (driven_names hinputs hparts)).2 h.driven

/-- Compilation accepts exactly the well formed descriptions. -/
theorem exists_compile_iff_wellFormed (d : Description) (config : Config)
    (hsize : d.nets.length ≤ UInt32.size) :
    (∃ c, d.compile config = .ok c) ↔ d.WellFormed config.maxBusWidth := by
  simp only [compile_eq_ok_iff]
  constructor
  · rintro ⟨c, inputs, outputs, parts, schedule, h, hschedule, -⟩
    have hacyclic := (Dependencies.schedule_ok_iff h.inRange).1 ⟨schedule, hschedule⟩
    exact h.wellFormed (h.acyclic_iff.1 hacyclic)
  · intro h
    obtain ⟨inputs, outputs, parts, hchecked⟩ := h.checked hsize config.maxBusWidth_le
    have hacyclic := hchecked.acyclic_iff.2 h.acyclic
    obtain ⟨schedule, hschedule⟩ := (Dependencies.schedule_ok_iff hchecked.inRange).2 hacyclic
    exact ⟨_, inputs, outputs, parts, schedule, hchecked, hschedule, rfl⟩

/-- A memory of one-bit words that keeps or sets the word at an address, behind a register of two bits,
    with a table of three-bit words beside it. The memory writes what it reads, which is no cycle because
    writes take effect after the step. -/
def keeper : Description where
  name := "keeper"
  inputs := ["set"]
  outputs := ["out", "held", "entry"]
  nets := [⟨"set", 1⟩, ⟨"held", 2⟩, ⟨"next", 2⟩, ⟨"cell", 1⟩, ⟨"data", 1⟩, ⟨"out", 1⟩, ⟨"entry", 3⟩]
  equations := [
    { target := "held", op := .reg, args := [.net "next"], init := some 2 },
    { target := "next", op := .concat, args := [.net "cell", .const 1 none] },
    { target := "out", op := .select, args := [.net "held"], params := [1] },
    { target := "cell", op := .ram,
      args := [.net "out", .const 1 none, .net "set", .net "data"], params := [1, 1] },
    { target := "data", op := .mux, args := [.net "set", .net "cell", .const 1 (some 1)] },
    { target := "entry", op := .rom, args := [.net "out"], params := [1, 3] }]

/-- The keeper is well formed, because it compiles. -/
theorem wellFormed_keeper :
    keeper.nets.length ≤ UInt32.size ∧ keeper.WellFormed Config.standard.maxBusWidth := by
  have hsize : keeper.nets.length ≤ UInt32.size := by decide
  exact ⟨hsize, (exists_compile_iff_wellFormed keeper .standard hsize).1
    (exists_eq_ok_of_isOk (by decide +kernel))⟩

end Description

end Netlist
