/-
Module: Netlist.Proofs.Calls
Layer: Proofs
Purpose: What can happen to a simulation. A sequence of calls steps, runs and resets it, and calls that are
  refused leave it as it is. An accepted step is described by one equation; what steps and resets preserve,
  every sequence of calls preserves.
Imports: Netlist.Proofs.Declaration, Netlist.Proofs.NetTable, Netlist.Proofs.Word,
  Netlist.Simulation.Simulator
Main exports: Call, Simulator.call, Simulator.calls, Accepts, accepts_of_matchInputs,
  matchInputs_of_accepts, Simulator.settled, Simulator.step_eq_ok, Simulator.run_invariant,
  Simulator.calls_invariant
-/
import Netlist.Proofs.Declaration
import Netlist.Proofs.NetTable
import Netlist.Proofs.Word
import Netlist.Simulation.Simulator

namespace Netlist

/-- A call that can change a simulation. -/
inductive Call where
  | step (inputs : InputVector)
  /-- Steps up to the first that is refused. -/
  | run (vectors : List InputVector)
  | reset

/-!
### Accepted inputs
-/

/-- A vector gives each pin a word of its width, and the assignments are these words at the nets of the
    pins. -/
def Accepts (inputs : InputVector) (pins : List Pin) (assignments : List (NetId × Word)) : Prop :=
  List.Forall₂ (fun pin a => a.1 = pin.net ∧ inputs.get? pin.name = some a.2 ∧
    a.2.toNat < 2 ^ pin.width) pins assignments

theorem Accepts.nets_eq {inputs : InputVector} {pins : List Pin} {assignments : List (NetId × Word)}
    (h : Accepts inputs pins assignments) : assignments.map Prod.fst = pins.map Pin.net :=
  (map_eq_of_forall₂ h (fun _ _ hpin => hpin.1.symm)).symm

/-- A vector that is matched is accepted. -/
theorem accepts_of_matchInputs {pins : List Pin} {inputs : InputVector}
    {assignments : List (NetId × Word)} (h : matchInputs pins inputs = .ok assignments) :
    Accepts inputs pins assignments := by
  rw [matchInputs] at h
  split at h
  · cases h
  · next hmissing =>
      rw [List.find?_eq_none] at hmissing
      split at h
      · cases h
      · rw [mapM_eq_ok_iff] at h
        -- no pin is missing, so the value of a pin is the one it is given
        have hboth := (List.forall₂_and_left pins assignments).2 ⟨hmissing, h⟩
        refine hboth.imp ?_
        rintro pin a ⟨hsome, ha⟩
        cases hget : inputs.get? pin.name with
        | none => simp [hget] at hsome
        | some value =>
            simp only [hget, Option.getD_some] at ha
            split at ha
            · next hfits =>
                cases ha
                exact ⟨rfl, rfl, Word.fits_iff.1 hfits⟩
            · cases ha

/-- A vector that is accepted and gives values to no other pins is matched. -/
theorem matchInputs_of_accepts {pins : List Pin} {inputs : InputVector}
    {assignments : List (NetId × Word)} (h : Accepts inputs pins assignments)
    (hknown : ∀ e ∈ inputs.entries, e.1 ∈ pins.map Pin.name) :
    matchInputs pins inputs = .ok assignments := by
  have hgiven : pins.find? (fun pin => (inputs.get? pin.name).isNone) = none := by
    rw [List.find?_eq_none]
    intro pin hpin
    rcases forall₂_mem_left h hpin with ⟨a, -, -, hget, -⟩
    simp [hget]
  have hnone : inputs.entries.find? (fun e => !pins.any (fun pin => pin.name == e.1)) = none := by
    rw [List.find?_eq_none]
    intro e he
    rcases List.mem_map.1 (hknown e he) with ⟨pin, hpin, hname⟩
    simp only [Bool.not_eq_true', Bool.not_eq_false, List.any_eq_true, beq_iff_eq]
    exact ⟨pin, hpin, hname⟩
  unfold matchInputs
  rw [hgiven]
  simp only
  rw [hnone]
  simp only
  rw [mapM_eq_ok_iff]
  refine h.imp ?_
  intro pin a hpin
  rcases hpin with ⟨hnet, hget, hfits⟩
  rw [hget, Option.getD_some, if_pos (Word.fits_iff.2 hfits), ← hnet]

namespace Simulator

variable {sim sim' : Simulator} {inputs : InputVector} {output : OutputVector}

/-- What a call leaves of a simulation. -/
def call (sim : Simulator) : Call → Simulator
  | .step inputs =>
    match sim.step inputs with
    | .ok (_, sim) => sim
    | .error _ => sim
  | .run vectors => (sim.run vectors).2
  | .reset => sim.reset

/-- What a sequence of calls leaves of a simulation. -/
def calls (sim : Simulator) (sequence : List Call) : Simulator :=
  sequence.foldl call sim

/-- The nets at the moment of a step when inputs are driven and all gates have settled. -/
def settled (sim : Simulator) (assignments : List (NetId × Word)) : NetTable :=
  State.settleNets sim.circuit (State.memories sim.rom sim.state.ram)
    (NetTable.assignAll Prod.fst Prod.snd assignments sim.state.nets)

/-- The nets after the registers have taken their next values. -/
def committed (c : Circuit) (nets : NetTable) : NetTable :=
  NetTable.assignAll Register.current (fun r => r.next.read nets &&& Word.mask r.width) c.registers nets

/-- The RAM contents after the enabled writes. -/
def written (c : Circuit) (nets : NetTable) (ram : RamStore) : RamStore :=
  (State.updates c nets).writes.foldl (fun ram w => ram.write w.block w.address w.data) ram

/-- An accepted step reads the outputs from the settled nets and then updates registers and memories;
    circuit and ROM contents stay. -/
theorem step_eq_ok (h : sim.step inputs = .ok (output, sim')) :
    ∃ assignments, Accepts inputs sim.circuit.inputs assignments ∧
      output = outputs sim.circuit (sim.settled assignments) ∧
      sim'.circuit = sim.circuit ∧ sim'.rom = sim.rom ∧
      sim'.state.nets = committed sim.circuit (sim.settled assignments) ∧
      sim'.state.ram = written sim.circuit (sim.settled assignments) sim.state.ram := by
  rw [step, bind_eq_ok_iff] at h
  obtain ⟨assignments, hmatch, h⟩ := h
  injection h with h
  obtain ⟨rfl, rfl⟩ := Prod.mk.inj h
  refine ⟨assignments, accepts_of_matchInputs hmatch, rfl, rfl, rfl, ?_, rfl⟩
  exact NetTable.assignAll_zip_map Register.current _ sim.circuit.registers (sim.settled assignments)

theorem run_cons_of_error {fault : StepError} (h : sim.step inputs = .error fault)
    (rest : List InputVector) : sim.run (inputs :: rest) = (.error fault, sim) := by
  rw [run, h]

theorem run_cons_of_ok (h : sim.step inputs = .ok (output, sim')) (rest : List InputVector) :
    sim.run (inputs :: rest) =
      ((sim'.run rest).1.map (fun later => output :: later), (sim'.run rest).2) := by
  simp only [run, h]
  rcases sim'.run rest with ⟨result, final⟩
  cases result <;> rfl

/-!
### Invariants
-/

/-- What every accepted step preserves, a run preserves, and it holds before every step of the run. -/
theorem run_invariant {P : Simulator → Prop} {Q : OutputVector → Prop}
    (hstep : ∀ sim inputs output sim', P sim → sim.step inputs = .ok (output, sim') →
      P sim' ∧ Q output) (vectors : List InputVector) (h : P sim) :
    P (sim.run vectors).2 ∧ ∀ results, (sim.run vectors).1 = .ok results → ∀ output ∈ results,
      Q output := by
  induction vectors generalizing sim with
  | nil =>
      refine ⟨h, ?_⟩
      intro results hresults output hmem
      cases hresults
      cases hmem
  | cons inputs rest ih =>
      rw [run]
      cases hok : sim.step inputs with
      | error fault => exact ⟨h, fun _ hresults => by cases hresults⟩
      | ok result =>
          obtain ⟨first, next⟩ := result
          obtain ⟨hnext, hfirst⟩ := hstep sim inputs first next h hok
          obtain ⟨hlast, hlater⟩ := ih hnext
          simp only
          cases hrun : next.run rest with
          | mk outcome final =>
              rw [hrun] at hlast hlater
              cases outcome with
              | error fault => exact ⟨hlast, fun _ hresults => by cases hresults⟩
              | ok later =>
                  refine ⟨hlast, ?_⟩
                  intro results hresults output hmem
                  cases hresults
                  rcases List.mem_cons.1 hmem with rfl | hmem
                  · exact hfirst
                  · exact hlater later rfl output hmem

/-- What accepted steps and resets preserve, every sequence of calls preserves. -/
theorem calls_invariant {P : Simulator → Prop}
    (hstep : ∀ sim inputs output sim', P sim → sim.step inputs = .ok (output, sim') → P sim')
    (hreset : ∀ sim, P sim → P sim.reset) {sequence : List Call} (h : P sim) :
    P (sim.calls sequence) := by
  induction sequence generalizing sim with
  | nil => exact h
  | cons first rest ih =>
      refine ih ?_
      cases first with
      | step inputs =>
          rw [call]
          cases hok : sim.step inputs with
          | error fault => exact h
          | ok result => exact hstep sim inputs result.1 result.2 h hok
      | run vectors =>
          exact (run_invariant (Q := fun _ => True)
            (fun sim inputs output sim' hsim hok => ⟨hstep sim inputs output sim' hsim hok, trivial⟩)
            vectors h).1
      | reset => exact hreset sim h

end Simulator

end Netlist
