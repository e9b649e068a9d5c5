/-
Module: Netlist.Proofs.Agreement
Layer: Proofs
Purpose: Simulations that agree on what they hold. What a step does follows from the inputs, the registers
  and the memories: the equations determine the values of all nets, because no net follows itself. So when
  two simulations of a description, or of a description and a reordering of it, hold the same, they answer
  every run alike and hold the same after it, whatever their nets carried before.
Imports: Mathlib.Order.WellFoundedSet, Netlist.Proofs.Meaning, Netlist.Proofs.Reordered
Main exports: Description.Simulated, Description.blockOf, Description.Agrees,
  Description.Agrees.valuation_eq, Description.Agrees.step, Description.Agrees.run
-/
import Mathlib.Order.WellFoundedSet
import Netlist.Proofs.Meaning
import Netlist.Proofs.Reordered

namespace Netlist

open Relation (TransGen)

/-!
### Simulations of a description
-/

namespace Description

/-- A simulation of a description that passes the checks, in which everything fits. -/
def Simulated (d : Description) (limit : Nat) (sim : Simulator) : Prop :=
  ∃ inputs outputs parts schedule, d.Checked limit inputs outputs parts ∧
    (dependencies d.nets.length parts).schedule = .ok schedule ∧
    sim.Fits (d.scope limit) (d.circuit inputs outputs parts schedule) sim.rom

variable {d d' : Description} {limit : Nat} {sim sim' next next' : Simulator} {vector : InputVector}
  {output output' : OutputVector}

/-- Whatever is called on a simulation of a compiled description, it stays one with its ROM contents. -/
theorem simulated_calls {config : Config} {c : Circuit} (h : d.compile config = .ok c) (rom : RomStore)
    (settings : Config) (sequence : List Call) :
    d.Simulated config.maxBusWidth ((Simulator.create c rom settings).calls sequence) ∧
      ((Simulator.create c rom settings).calls sequence).rom = rom := by
  obtain ⟨inputs, outputs, parts, schedule, hchecked, hschedule, rfl⟩ := compile_eq_ok_iff.1 h
  have hfits : ((Simulator.create (d.circuit inputs outputs parts schedule) rom settings).calls
      sequence).Fits (d.scope config.maxBusWidth) (d.circuit inputs outputs parts schedule) rom :=
    hchecked.fits_calls rom settings sequence
  exact ⟨⟨inputs, outputs, parts, schedule, hchecked, hschedule, hfits.rom_eq.symm ▸ hfits⟩,
    hfits.rom_eq⟩

namespace Simulated

variable (h : d.Simulated limit sim)

include h

theorem wellFormed : d.WellFormed limit := by
  obtain ⟨inputs, outputs, parts, schedule, hchecked, hschedule, -⟩ := h
  have hacyclic := (Dependencies.schedule_ok_iff hchecked.inRange).1 ⟨schedule, hschedule⟩
  exact hchecked.wellFormed (hchecked.acyclic_iff.1 hacyclic)

/-- An accepted step gives a simulation with the same ROM contents, and is explained by values of the
    nets. -/
theorem step (hok : sim.step vector = .ok (output, next)) :
    d.Simulated limit next ∧ next.rom = sim.rom ∧
      ∃ V, d.Explains sim.rom vector sim next output V := by
  obtain ⟨inputs, outputs, parts, schedule, hchecked, hschedule, hfits⟩ := h
  have hnext := (hchecked.fits_step hfits hok).1
  refine ⟨⟨inputs, outputs, parts, schedule, hchecked, hschedule, hnext.rom_eq.symm ▸ hnext⟩,
    hnext.rom_eq, hchecked.explains hschedule hfits hok⟩

/-- The nets that can be looked at are the declared ones. -/
theorem isSome_peek?_iff {name : String} :
    (sim.peek? name).isSome = true ↔ name ∈ d.nets.map NetDecl.name := by
  obtain ⟨inputs, outputs, parts, schedule, hchecked, -, hfits⟩ := h
  have hfound : name ∈ d.nets.map NetDecl.name ↔ ∃ id, (d.scope limit).find name = .ok id :=
    mem_names_iff_find hchecked.size_le
  rw [Option.isSome_iff_exists, hfound]
  simp only [peek?_eq_some_iff hfits.circuit_eq limit]
  constructor
  · rintro ⟨_, id, hfind, -⟩
    exact ⟨id, hfind⟩
  · rintro ⟨id, hfind⟩
    exact ⟨_, id, hfind, rfl⟩

theorem peek?_eq_none {name : String} (hname : name ∉ d.nets.map NetDecl.name) :
    sim.peek? name = none := by
  rwa [← Option.not_isSome_iff_eq_none, h.isSome_peek?_iff]

/-- The input pins have the names and widths that the description gives them. -/
theorem inputs_eq : sim.circuit.inputs.map (fun pin => (pin.name, pin.width)) =
    d.inputs.map (fun name => (name, (d.width? name).getD 0)) := by
  obtain ⟨inputs, outputs, parts, schedule, hchecked, -, hfits⟩ := h
  rw [hfits.circuit_eq]
  refine (map_eq_of_forall₂ hchecked.inputs_attached ?_).symm
  rintro name pin ⟨hname, hfind, hwidth⟩
  rw [(width?_eq_some_iff hchecked.size_le).2 ⟨_, hfind, rfl⟩, hname, hwidth]
  rfl

/-- The nets that an equation names are declared. -/
theorem mem_names_of_mem_args {eq : Equation} (heq : eq ∈ d.equations) {name : String}
    (hname : .net name ∈ eq.args) : name ∈ d.nets.map NetDecl.name := by
  obtain ⟨inputs, outputs, parts, schedule, hchecked, -, -⟩ := h
  obtain ⟨k, hk⟩ := List.mem_iff_getElem?.1 heq
  obtain ⟨part, -, -, -, -, helem⟩ := hchecked.part hk
  obtain ⟨s, -, position, w, hresolves⟩ := forall₂_mem_left helem.sources hname
  cases hresolves with
  | net found => exact (mem_names_iff_find hchecked.size_le).2 ⟨_, found⟩

end Simulated

/-!
### Inputs
-/

end Description

/-- Lists of tests fail alike when the tests do, one by one. -/
theorem mapM_fails_alike {ε α β γ δ : Type} {f : α → Except ε γ} {g : β → Except ε δ} {as : List α}
    {bs : List β} (h : List.Forall₂ (fun a b => (∃ fault, f a = .error fault ∧ g b = .error fault) ∨
      ∃ x y, f a = .ok x ∧ g b = .ok y) as bs) :
    (∃ fault, as.mapM f = .error fault ∧ bs.mapM g = .error fault) ∨
      ∃ xs ys, as.mapM f = .ok xs ∧ bs.mapM g = .ok ys := by
  induction h with
  | nil => exact .inr ⟨[], [], rfl, rfl⟩
  | cons hfirst _ ih =>
      rw [List.mapM_cons, List.mapM_cons]
      rcases hfirst with ⟨fault, hf, hg⟩ | ⟨x, y, hf, hg⟩
      · exact .inl ⟨fault, by rw [hf]; rfl, by rw [hg]; rfl⟩
      · rcases ih with ⟨fault, hfs, hgs⟩ | ⟨xs, ys, hfs, hgs⟩
        · exact .inl ⟨fault, by rw [hf, hfs]; rfl, by rw [hg, hgs]; rfl⟩
        · exact .inr ⟨x :: xs, y :: ys, by rw [hf, hfs]; rfl, by rw [hg, hgs]; rfl⟩

/-- Whether a vector is accepted, and else why not, depends on the names and widths of the pins only. -/
theorem matchInputs_fails_alike {pins pins' : List Pin}
    (h : pins.map (fun pin => (pin.name, pin.width)) = pins'.map (fun pin => (pin.name, pin.width)))
    (inputs : InputVector) :
    (∃ fault, matchInputs pins inputs = .error fault ∧ matchInputs pins' inputs = .error fault) ∨
      ∃ xs ys, matchInputs pins inputs = .ok xs ∧ matchInputs pins' inputs = .ok ys := by
  have hpins : List.Forall₂ (fun pin pin' : Pin => pin.name = pin'.name ∧ pin.width = pin'.width)
      pins pins' := by
    rw [← List.forall₂_eq_eq_eq, List.forall₂_map_left_iff, List.forall₂_map_right_iff] at h
    exact h.imp (fun _ _ heq => Prod.mk.inj heq)
  have hnames : pins.map Pin.name = pins'.map Pin.name :=
    map_eq_of_forall₂ hpins (fun _ _ hpin => hpin.1)
  have hmissing : (pins.find? (fun pin => (inputs.get? pin.name).isNone)).map Pin.name =
      (pins'.find? (fun pin => (inputs.get? pin.name).isNone)).map Pin.name := by
    have hfind := congrArg (List.find? (fun name => (inputs.get? name).isNone)) hnames
    rwa [List.find?_map, List.find?_map] at hfind
  have hany : ∀ name, pins.any (fun pin => pin.name == name) =
      pins'.any (fun pin => pin.name == name) := by
    intro name
    have hsame := congrArg (List.any · (fun other => other == name)) hnames
    simp only [List.any_map] at hsame
    exact hsame
  simp only [matchInputs, hany]
  cases hpin : pins.find? (fun pin => (inputs.get? pin.name).isNone) with
  | some pin =>
      rw [hpin] at hmissing
      obtain ⟨pin', hpin', hname⟩ := Option.map_eq_some_iff.1 hmissing.symm
      rw [hpin']
      exact .inl ⟨.missingInput pin.name, rfl, congrArg (Except.error ∘ StepError.missingInput) hname⟩
  | none =>
      rw [hpin] at hmissing
      rw [Option.map_eq_none_iff.1 hmissing.symm]
      cases inputs.entries.find? (fun e => !pins'.any (fun pin => pin.name == e.1)) with
      | some e => exact .inl ⟨_, rfl, rfl⟩
      | none =>
          refine mapM_fails_alike (hpins.imp ?_)
          rintro pin pin' ⟨hname, hwidth⟩
          rw [← hname, ← hwidth]
          by_cases hfits : Word.fits ((inputs.get? pin.name).getD 0) pin.width = true
          · exact .inr ⟨_, _, if_pos hfits, if_pos hfits⟩
          · exact .inl ⟨_, if_neg hfits, if_neg hfits⟩

/-!
### Values are determined
-/

/-- The value of an equation depends on what its target follows, and on its own memory. -/
theorem Equation.denote_congr {eq : Equation} {V V' : String → Nat} {rom rom' ram ram' : Nat → Nat}
    (hV : ∀ name, .net name ∈ eq.reads → V name = V' name) (hrom : eq.op = .rom → rom = rom')
    (hram : eq.op = .ram → ram = ram') (declared : String → Option Nat) (w : Nat) :
    eq.denote declared w V rom ram = eq.denote declared w V' rom' ram' := by
  have hvalue : ∀ a ∈ eq.reads, a.value V = a.value V' := by
    intro a ha
    cases a with
    | net name => exact hV name ha
    | const value width => rfl
  clear hV
  rw [denote, denote]
  split <;> simp_all [reads]

theorem Equation.mem_args_of_mem_reads {eq : Equation} {a : Operand} (h : a ∈ eq.reads) :
    a ∈ eq.args := by
  rw [reads] at h
  split at h
  · cases h
  · exact List.mem_of_mem_take h
  · exact h

namespace Description

variable {d d' : Description} {limit : Nat} {sim sim' next next' : Simulator} {vector : InputVector}
  {output output' : OutputVector} {V V' : String → Nat}

/-- The number of the memory block of an equation. -/
def blockOf (d : Description) (eq : Equation) : Nat :=
  d.block eq.op (d.equations.idxOf eq)

theorem WellFormed.blockOf_eq (h : d.WellFormed limit) {k : Nat} {eq : Equation} {op : Op}
    (heq : d.equations[k]? = some eq) (hop : eq.op = op) : d.blockOf eq = d.block op k := by
  have hnodup : d.equations.Nodup := h.targets_nodup.of_map
  obtain ⟨hk, rfl⟩ := List.getElem?_eq_some_iff.1 heq
  rw [blockOf, hnodup.idxOf_getElem k hk, hop]

/-- Two simulations agree when they hold the same register values, the same RAM words and the same ROM
    words, for each equation of their descriptions. -/
structure Agrees (d d' : Description) (sim sim' : Simulator) : Prop where
  roms : ∀ eq ∈ d.equations, eq.op = .rom → ∀ a : Word,
    sim.rom.read (d.blockOf eq) a = sim'.rom.read (d'.blockOf eq) a
  registers : ∀ eq ∈ d.equations, eq.op = .reg → sim.peek? eq.target = sim'.peek? eq.target
  rams : ∀ eq ∈ d.equations, eq.op = .ram → ∀ a : Word,
    sim.state.ram.read (d.blockOf eq) a = sim'.state.ram.read (d'.blockOf eq) a

/-- No chain of nets that follow each other goes on for ever. -/
theorem WellFormed.wellFoundedOn_follows (h : d.WellFormed limit) :
    Set.WellFoundedOn {name | name ∈ d.nets.map NetDecl.name} (TransGen d.Follows) := by
  have horder : IsStrictOrder String (TransGen d.Follows) :=
    { irrefl := h.acyclic, trans := fun _ _ _ => TransGen.trans }
  exact (List.finite_toSet _).wellFoundedOn

namespace Agrees

variable (h : d.Agrees d' sim sim') (hd : d.Reordered d') (hsim : d.Simulated limit sim)
  (hsim' : d'.Simulated limit sim')

include h hd hsim hsim'

/-- The values of nets that explain steps of agreeing simulations on the same inputs are the same. -/
theorem valuation_eq (hV : d.Explains sim.rom vector sim next output V)
    (hV' : d'.Explains sim'.rom vector sim' next' output' V') {name : String}
    (hname : name ∈ d.nets.map NetDecl.name) : V name = V' name := by
  have hwell := hsim.wellFormed
  have hwell' := hsim'.wellFormed
  -- along the nets that a net follows
  refine hwell.wellFoundedOn_follows.induction hname (P := fun name => V name = V' name) ?_
  intro name hname ih
  rcases hwell.input_or_target hname with hinput | ⟨eq, heq, rfl⟩
  · obtain ⟨v, hget, hv⟩ := hV.inputs name hinput
    obtain ⟨v', hget', hv'⟩ := hV'.inputs name (hd.inputs_eq ▸ hinput)
    rw [hget] at hget'
    cases hget'
    rw [hv, hv']
  · have heq' := hd.equations.mem_iff.1 heq
    by_cases hop : eq.op = .reg
    · obtain ⟨v, hpeek, hv⟩ := hV.registers eq heq hop
      obtain ⟨v', hpeek', hv'⟩ := hV'.registers eq heq' hop
      rw [← h.registers eq heq hop, hpeek] at hpeek'
      cases hpeek'
      rw [hv, hv']
    · obtain ⟨k, hk⟩ := List.mem_iff_getElem?.1 heq
      obtain ⟨k', hk'⟩ := List.mem_iff_getElem?.1 heq'
      obtain ⟨w, hw, hvalue⟩ := hV.equations k eq hk hop
      obtain ⟨w', hw', hvalue'⟩ := hV'.equations k' eq hk' hop
      rw [← hd.width?_eq hwell.names] at hw' hvalue'
      rw [hw] at hw'
      cases hw'
      rw [hvalue, hvalue']
      refine Equation.denote_congr ?_ ?_ ?_ _ _
      · intro other hother
        have hdeclared := hsim.mem_names_of_mem_args heq (Equation.mem_args_of_mem_reads hother)
        exact ih other hdeclared (.single ⟨eq, heq, rfl, hother⟩)
      · intro hrom
        funext a
        rw [← hwell.blockOf_eq hk hrom, ← hwell'.blockOf_eq hk' hrom, h.roms eq heq hrom]
      · intro hram
        funext a
        rw [← hwell.blockOf_eq hk hram, ← hwell'.blockOf_eq hk' hram, h.rams eq heq hram]

section Explained

variable (hok : sim.step vector = .ok (output, next)) (hok' : sim'.step vector = .ok (output', next'))
  (hV : d.Explains sim.rom vector sim next output V)
  (hV' : d'.Explains sim'.rom vector sim' next' output' V')

include hV hV'

theorem operand_eq {eq : Equation} (heq : eq ∈ d.equations) {a : Operand} (ha : a ∈ eq.args) :
    a.value V = a.value V' := by
  cases a with
  | net name => exact h.valuation_eq hd hsim hsim' hV hV' (hsim.mem_names_of_mem_args heq ha)
  | const value width => rfl

/-- Steps on the same inputs give the same outputs. -/
theorem output_eq : output = output' := by
  have hnumbers : output.values.map (fun e => (e.1, e.2.toNat)) =
      output'.values.map (fun e => (e.1, e.2.toNat)) := by
    rw [hV.outputs, hV'.outputs, ← hd.outputs_eq]
    refine List.map_congr_left (fun name hname => ?_)
    rw [h.valuation_eq hd hsim hsim' hV hV' (hsim.wellFormed.outputs_declared name hname)]
  have hinjective : Function.Injective (fun e : String × Word => (e.1, e.2.toNat)) := by
    intro a b heq
    obtain ⟨hname, hvalue⟩ := Prod.mk.inj heq
    exact Prod.ext hname (UInt64.toNat_inj.1 hvalue)
  exact congrArg OutputVector.mk (List.map_injective_iff.2 hinjective hnumbers)

theorem register_after {eq : Equation} (heq : eq ∈ d.equations) (hop : eq.op = .reg) :
    next.peek? eq.target = next'.peek? eq.target := by
  obtain ⟨operand, v, harg, hpeek, hv⟩ := hV.registers_after eq heq hop
  obtain ⟨operand', v', harg', hpeek', hv'⟩ :=
    hV'.registers_after eq (hd.equations.mem_iff.1 heq) hop
  rw [harg] at harg'
  cases harg'
  have hsame := h.operand_eq hd hsim hsim' hV hV' heq (by rw [harg]; exact List.mem_cons_self)
  rw [hpeek, hpeek', UInt64.toNat_inj.1 (hv.trans (hsame.trans hv'.symm))]

theorem ram_after {eq : Equation} (heq : eq ∈ d.equations) (hop : eq.op = .ram) (a : Word) :
    next.state.ram.read (d.blockOf eq) a = next'.state.ram.read (d'.blockOf eq) a := by
  obtain ⟨k, hk⟩ := List.mem_iff_getElem?.1 heq
  obtain ⟨k', hk'⟩ := List.mem_iff_getElem?.1 (hd.equations.mem_iff.1 heq)
  obtain ⟨readAddr, writeEnable, writeAddr, writeData, hargs, hread⟩ := hV.rams_after k eq hk hop
  obtain ⟨_, _, _, _, hargs', hread'⟩ := hV'.rams_after k' eq hk' hop
  rw [hargs] at hargs'
  cases hargs'
  have hblock := hsim.wellFormed.blockOf_eq hk hop
  have hblock' := hsim'.wellFormed.blockOf_eq hk' hop
  have hbefore := h.rams eq heq hop a
  rw [hblock, hblock'] at hbefore ⊢
  have hoperand : ∀ operand ∈ [readAddr, writeEnable, writeAddr, writeData],
      operand.value V = operand.value V' := by
    intro operand hmem
    exact h.operand_eq hd hsim hsim' hV hV' heq (hargs ▸ hmem)
  rw [← UInt64.toNat_inj, hread, hread', hbefore, hoperand writeEnable (by simp),
    hoperand writeAddr (by simp), hoperand writeData (by simp)]

include hok hok' in
/-- After steps on the same inputs every net shows the same value. -/
theorem peek?_after (name : String) : next.peek? name = next'.peek? name := by
  by_cases hname : name ∈ d.nets.map NetDecl.name
  · by_cases hregister : ∃ eq ∈ d.equations, eq.target = name ∧ eq.op = .reg
    · obtain ⟨eq, heq, rfl, hop⟩ := hregister
      exact h.register_after hd hsim hsim' hV hV' heq hop
    · simp only [not_exists, not_and] at hregister
      have hvalue := h.valuation_eq hd hsim hsim' hV hV' hname
      obtain ⟨decl, hdecl, rfl⟩ := List.mem_map.1 hname
      obtain ⟨v, hpeek, hv⟩ := hV.nets_after decl hdecl hregister
      obtain ⟨v', hpeek', hv'⟩ := hV'.nets_after decl (hd.nets.mem_iff.1 hdecl)
        (fun eq heq => hregister eq (hd.equations.mem_iff.2 heq))
      rw [hpeek, hpeek', UInt64.toNat_inj.1 (hv.trans (hvalue.trans hv'.symm))]
  · -- a name that is not declared shows nothing
    rw [(hsim.step hok).1.peek?_eq_none hname,
      (hsim'.step hok').1.peek?_eq_none (fun hname' => hname (hd.mem_names_iff.2 hname'))]

end Explained

/-- Agreeing simulations refuse the same inputs for the same reason. Inputs that they accept give the same
    outputs, after which they agree again and show the same values at all nets. -/
theorem step (vector : InputVector) :
    (∃ fault, sim.step vector = .error fault ∧ sim'.step vector = .error fault) ∨
      ∃ output next next', sim.step vector = .ok (output, next) ∧
        sim'.step vector = .ok (output, next') ∧ d.Agrees d' next next' ∧
        ∀ name, next.peek? name = next'.peek? name := by
  have hpins : sim.circuit.inputs.map (fun pin => (pin.name, pin.width)) =
      sim'.circuit.inputs.map (fun pin => (pin.name, pin.width)) := by
    rw [hsim.inputs_eq, hsim'.inputs_eq, hd.inputs_eq, hd.width?_eq hsim.wellFormed.names]
  rcases matchInputs_fails_alike hpins vector with ⟨fault, herror, herror'⟩ | ⟨xs, ys, hxs, hys⟩
  · refine .inl ⟨fault, ?_, ?_⟩
    · rw [Simulator.step, herror]
      rfl
    · rw [Simulator.step, herror']
      rfl
  · right
    obtain ⟨⟨output, next⟩, hok⟩ : ∃ result, sim.step vector = .ok result :=
      ⟨_, by rw [Simulator.step, hxs]; rfl⟩
    obtain ⟨⟨output', next'⟩, hok'⟩ : ∃ result, sim'.step vector = .ok result :=
      ⟨_, by rw [Simulator.step, hys]; rfl⟩
    obtain ⟨-, hrom, V, hV⟩ := hsim.step hok
    obtain ⟨-, hrom', V', hV'⟩ := hsim'.step hok'
    cases h.output_eq hd hsim hsim' hV hV'
    refine ⟨output, next, next', hok, hok', ⟨?_, ?_, ?_⟩, ?_⟩
    · intro eq heq hop a
      rw [hrom, hrom', h.roms eq heq hop]
    · intro eq heq hop
      exact h.register_after hd hsim hsim' hV hV' heq hop
    · intro eq heq hop a
      exact h.ram_after hd hsim hsim' hV hV' heq hop a
    · exact h.peek?_after hd hsim hsim' hok hok' hV hV'

end Agrees

/-!
### Runs
-/

end Description

namespace Simulator

/-- How many steps of a run are accepted. -/
def accepted (sim : Simulator) : List InputVector → Nat
  | [] => 0
  | vector :: rest =>
    match sim.step vector with
    | .error _ => 0
    | .ok (_, next) => next.accepted rest + 1

end Simulator

namespace Description

variable {d d' : Description} {limit : Nat} {sim sim' : Simulator}

theorem Simulated.run (h : d.Simulated limit sim) (vectors : List InputVector) :
    d.Simulated limit (sim.run vectors).2 :=
  (Simulator.run_invariant (Q := fun _ => True)
    (fun _ _ _ _ hsim hok => ⟨(hsim.step hok).1, trivial⟩) vectors h).1

/-- Agreeing simulations answer a run alike and agree after it. They then show the same values at all nets
    if a step was accepted, or if they did so before. -/
theorem Agrees.run (h : d.Agrees d' sim sim') (hd : d.Reordered d') (hsim : d.Simulated limit sim)
    (hsim' : d'.Simulated limit sim') (vectors : List InputVector) :
    (sim.run vectors).1 = (sim'.run vectors).1 ∧ d.Agrees d' (sim.run vectors).2 (sim'.run vectors).2 ∧
      (0 < sim.accepted vectors ∨ (∀ name, sim.peek? name = sim'.peek? name) →
        ∀ name, (sim.run vectors).2.peek? name = (sim'.run vectors).2.peek? name) := by
  induction vectors generalizing sim sim' with
  | nil => exact ⟨rfl, h, fun hpeek => hpeek.resolve_left (Nat.lt_irrefl 0)⟩
  | cons vector rest ih =>
      rcases h.step hd hsim hsim' vector with ⟨fault, herror, herror'⟩ |
        ⟨output, next, next', hok, hok', hagrees, hpeek⟩
      · rw [Simulator.run_cons_of_error herror, Simulator.run_cons_of_error herror',
          Simulator.accepted, herror]
        exact ⟨rfl, h, fun hpeek => hpeek.resolve_left (Nat.lt_irrefl 0)⟩
      · obtain ⟨hresult, hafter, hpeeks⟩ := ih hagrees (hsim.step hok).1 (hsim'.step hok').1
        rw [Simulator.run_cons_of_ok hok, Simulator.run_cons_of_ok hok', hresult]
        exact ⟨rfl, hafter, fun _ => hpeeks (.inr hpeek)⟩

end Description

end Netlist
