/-
Module: Netlist.Proofs.PowerOn
Layer: Proofs
Purpose: A reset is a return to power-on. Steps change the values of nets, the words of RAM cells and the
  counters; the size of the net table, the kind and the size of every RAM block, the ROM contents and the
  settings stay, and from these a reset builds the state of power-on again, whatever was called before. Only
  the counters remember the past, and they decide nothing: with other counters every call has the same answer
  and leaves the same simulation up to the counters. So nothing that is called later can tell a simulation
  that was reset from one that has just been started.
Imports: Netlist.Proofs.Guarded.Simulation, Netlist.Proofs.Ram
Main exports: RamStore.clear_write, Simulator.withStats, Simulator.Continues, Simulator.Continues.reset_eq,
  Simulator.Answer, Simulator.answers, Simulator.recounted, Simulator.step_recounted,
  Simulator.call_recounted, Simulator.calls_withStats, Simulator.reset_restores_powerOn
-/
import Netlist.Proofs.Guarded.Simulation
import Netlist.Proofs.Ram

namespace Netlist

/-!
### Clearing

What a clear leaves depends on the kind and the size of a block only, and no write changes these.
-/

namespace Cells

@[simp] theorem clear_write (cells : Cells) (address value : Word) :
    (cells.write address value).clear = cells.clear := by
  cases cells with
  | dense words => simp [write, clear]
  | sparse words => rfl

@[simp] theorem clear_clear (cells : Cells) : cells.clear.clear = cells.clear := by
  cases cells with
  | dense words => simp [clear]
  | sparse words => rfl

@[simp] theorem clear_blank (addrWidth : Nat) : (blank addrWidth).clear = blank addrWidth := by
  rw [blank]
  split
  · simp [clear]
  · rfl

theorem occupied_clear (cells : Cells) : cells.clear.occupied = [] := by
  cases cells with
  | dense words =>
      rw [clear, occupied, List.filterMap_eq_nil_iff]
      rintro ⟨word, i⟩ hmem
      have hword : word ∈ (Array.replicate words.size (0 : Word)).toList := List.fst_mem_of_mem_zipIdx hmem
      simp only [Array.toList_replicate, List.mem_replicate] at hword
      rw [if_pos hword.2]
  | sparse words => rfl

theorem nonZero_clear (cells : Cells) : cells.clear.nonZero = [] := by
  rw [nonZero, occupied_clear, List.mergeSort_nil]

end Cells

namespace RamStore

theorem clear_write (store : RamStore) (block : Nat) (address value : Word) :
    (store.write block address value).clear = store.clear := by
  rw [write, clear, clear]
  congr 1
  apply Array.ext_getElem?
  intro b
  rw [Array.getElem?_map, Array.getElem?_map, Array.getElem?_modify]
  split <;> simp [Function.comp_def]

theorem clear_foldl_write (writes : List RamWrite) (store : RamStore) :
    (writes.foldl (fun ram w => ram.write w.block w.address w.data) store).clear = store.clear := by
  induction writes generalizing store with
  | nil => rfl
  | cons w rest ih => exact (ih _).trans (store.clear_write w.block w.address w.data)

theorem clear_clear (store : RamStore) : store.clear.clear = store.clear := by
  simp [clear, Function.comp_def]

theorem clear_ofCircuit (c : Circuit) : (ofCircuit c).clear = ofCircuit c := by
  simp [clear, ofCircuit, Function.comp_def]

theorem read_clear (store : RamStore) (block : Nat) (address : Word) :
    store.clear.read block address = 0 := by
  rw [read, clear, Array.getElem?_map]
  cases store.blocks[block]? with
  | none => rfl
  | some cells => exact cells.read_clear address

theorem nonZero_clear (store : RamStore) (block : Nat) : store.clear.nonZero block = [] := by
  rw [nonZero, clear, Array.getElem?_map]
  cases store.blocks[block]? with
  | none => rfl
  | some cells => exact cells.nonZero_clear

end RamStore

namespace Simulator

variable {c : Circuit} {rom : RomStore} {settings : Config} {sim sim' : Simulator}

/-- The simulation with other counters. -/
def withStats (sim : Simulator) (stats : Statistics) : Simulator :=
  { sim with stats }

/-!
### What no call changes
-/

/-- A simulation that continues one of the given circuit, ROM contents and settings: all that a reset relies
    on is as it was at power-on. -/
structure Continues (c : Circuit) (rom : RomStore) (settings : Config) (sim : Simulator) : Prop
    extends sim.Simulates c where
  rom_eq : sim.rom = rom
  traceSteps_eq : sim.traceSteps = settings.traceSteps
  collectStats_eq : sim.collectStats = settings.collectStats
  clear_eq : sim.state.ram.clear = RamStore.ofCircuit c

theorem continues_create (c : Circuit) (rom : RomStore) (settings : Config) :
    (create c rom settings).Continues c rom settings where
  toSimulates := simulates_create c rom settings
  rom_eq := rfl
  traceSteps_eq := rfl
  collectStats_eq := rfl
  clear_eq := RamStore.clear_ofCircuit c

theorem step_settings {inputs : InputVector} {output : OutputVector}
    (h : sim.step inputs = .ok (output, sim')) :
    sim'.traceSteps = sim.traceSteps ∧ sim'.collectStats = sim.collectStats := by
  rw [step, bind_eq_ok_iff] at h
  obtain ⟨assignments, -, h⟩ := h
  injection h with h
  obtain ⟨-, rfl⟩ := Prod.mk.inj h
  exact ⟨rfl, rfl⟩

theorem Continues.step (h : sim.Continues c rom settings) {inputs : InputVector} {output : OutputVector}
    (hok : sim.step inputs = .ok (output, sim')) : sim'.Continues c rom settings := by
  obtain ⟨assignments, -, -, -, hrom, -, hram⟩ := step_eq_ok hok
  obtain ⟨htrace, hcollect⟩ := step_settings hok
  refine ⟨h.toSimulates.step hok, hrom.trans h.rom_eq, htrace.trans h.traceSteps_eq,
    hcollect.trans h.collectStats_eq, ?_⟩
  rw [hram, written, RamStore.clear_foldl_write]
  exact h.clear_eq

theorem Continues.reset (h : sim.Continues c rom settings) : sim.reset.Continues c rom settings where
  toSimulates := h.toSimulates.reset
  rom_eq := h.rom_eq
  traceSteps_eq := h.traceSteps_eq
  collectStats_eq := h.collectStats_eq
  clear_eq := sim.state.ram.clear_clear.trans h.clear_eq

theorem Continues.calls (h : sim.Continues c rom settings) (sequence : List Call) :
    (sim.calls sequence).Continues c rom settings :=
  calls_invariant (fun _ _ _ _ hsim hok => hsim.step hok) (fun _ hsim => hsim.reset) h

/-- A reset restores everything but the counters. -/
theorem Continues.reset_eq (h : sim.Continues c rom settings) :
    sim.reset = (create c rom settings).withStats sim.stats := by
  obtain ⟨⟨hcircuit, hsize⟩, hrom, htrace, hcollect, hclear⟩ := h
  have hstate : sim.state.reset c = (State.blank c).resetRegisters c := by
    rw [State.reset, State.resetRegisters, State.resetRegisters, State.blank, hsize, hclear]
  rw [Simulator.reset, hcircuit, hstate, hrom, htrace, hcollect]
  rfl

/-!
### Counters decide nothing

Each call is compared with the same call on the simulation with other counters. Of the counters that it
leaves only this is said, that they stay as they are where none are kept.
-/

/-- What a call answers. -/
inductive Answer where
  | step (result : Except StepError OutputVector)
  | run (result : Except StepError (List OutputVector))
  | reset

/-- The answer of a simulation to a call. -/
def answer (sim : Simulator) : Call → Answer
  | .step inputs => .step ((sim.step inputs).map Prod.fst)
  | .run vectors => .run (sim.run vectors).1
  | .reset => .reset

/-- The answers of a simulation to a sequence of calls. -/
def answers (sim : Simulator) : List Call → List Answer
  | [] => []
  | first :: rest => sim.answer first :: (sim.call first).answers rest

/-- The simulation with other counters, which are kept or not. -/
def recounted (sim : Simulator) (collect : Bool) (stats : Statistics) : Simulator :=
  { sim with stats, collectStats := collect }

/-- With other counters a step is refused alike, or has the same outputs and leaves the same simulation. -/
theorem step_recounted (sim : Simulator) (collect : Bool) (stats : Statistics) (inputs : InputVector) :
    ∃ stats', (collect = false → stats' = stats) ∧ (sim.recounted collect stats).step inputs =
      (sim.step inputs).map (fun result => (result.1, result.2.recounted collect stats')) := by
  rw [step, step]
  change ∃ stats', _ ∧ matchInputs sim.circuit.inputs inputs >>= _ = _
  cases matchInputs sim.circuit.inputs inputs with
  | error fault => exact ⟨stats, fun _ => rfl, rfl⟩
  | ok assignments =>
      refine ⟨_, ?_, rfl⟩
      rintro rfl
      rfl

theorem run_recounted (sim : Simulator) (collect : Bool) (stats : Statistics)
    (vectors : List InputVector) :
    ∃ stats', (collect = false → stats' = stats) ∧ (sim.recounted collect stats).run vectors =
      ((sim.run vectors).1, (sim.run vectors).2.recounted collect stats') := by
  induction vectors generalizing sim stats with
  | nil => exact ⟨stats, fun _ => rfl, rfl⟩
  | cons inputs rest ih =>
      obtain ⟨between, hbetween, hstep⟩ := sim.step_recounted collect stats inputs
      cases hok : sim.step inputs with
      | error fault =>
          rw [hok] at hstep
          exact ⟨stats, fun _ => rfl, by rw [run_cons_of_error hstep, run_cons_of_error hok]⟩
      | ok result =>
          obtain ⟨output, next⟩ := result
          rw [hok] at hstep
          obtain ⟨last, hlast, hrun⟩ := ih next between
          refine ⟨last, fun hoff => (hlast hoff).trans (hbetween hoff), ?_⟩
          rw [run_cons_of_ok hstep, run_cons_of_ok hok, hrun]

theorem call_recounted (sim : Simulator) (collect : Bool) (stats : Statistics) (request : Call) :
    ∃ stats', (collect = false → stats' = stats) ∧
      (sim.recounted collect stats).call request = (sim.call request).recounted collect stats' ∧
      (sim.recounted collect stats).answer request = sim.answer request := by
  cases request with
  | step inputs =>
      obtain ⟨after, hafter, hstep⟩ := sim.step_recounted collect stats inputs
      rw [call, call, answer, answer, hstep]
      cases sim.step inputs with
      | error fault => exact ⟨stats, fun _ => rfl, rfl, rfl⟩
      | ok result => exact ⟨after, hafter, rfl, rfl⟩
  | run vectors =>
      obtain ⟨after, hafter, hrun⟩ := sim.run_recounted collect stats vectors
      rw [call, call, answer, answer, hrun]
      exact ⟨after, hafter, rfl, rfl⟩
  | reset => exact ⟨stats, fun _ => rfl, rfl, rfl⟩

theorem collectStats_call (sim : Simulator) (request : Call) :
    (sim.call request).collectStats = sim.collectStats := by
  change (sim.calls [request]).collectStats = sim.collectStats
  apply calls_invariant (P := fun next => next.collectStats = sim.collectStats)
  · intro before inputs output after hbefore hok
    exact (step_settings hok).2.trans hbefore
  · intro before hbefore
    exact hbefore
  · rfl

/-- With other counters a sequence of calls has the same answers and leaves the same simulation. -/
theorem calls_withStats (sim : Simulator) (stats : Statistics) (sequence : List Call) :
    ∃ stats', (sim.withStats stats).calls sequence = (sim.calls sequence).withStats stats' ∧
      (sim.withStats stats).answers sequence = sim.answers sequence := by
  induction sequence generalizing sim stats with
  | nil => exact ⟨stats, rfl, rfl⟩
  | cons first rest ih =>
      obtain ⟨between, -, hcall, hanswer⟩ := sim.call_recounted sim.collectStats stats first
      have hfirst : (sim.withStats stats).call first = (sim.call first).withStats between := by
        refine hcall.trans ?_
        rw [← sim.collectStats_call first]
        rfl
      obtain ⟨last, hcalls, hanswers⟩ := ih (sim.call first) between
      refine ⟨last, ?_, ?_⟩
      · rw [calls, List.foldl_cons, hfirst]
        exact hcalls
      · rw [answers, hfirst, hanswers, answers, ← hanswer]
        rfl

/-- Reset equals power-on. After any sequence of calls on a simulation of any circuit, ROM contents and
    settings, a reset gives back the simulation of power-on in everything but the counters, which it keeps:
    nothing waits to be committed and every RAM cell is zero. Whatever is called then has the answers that it
    has at power-on, and leaves the same values of nets and the same snapshot. -/
theorem reset_restores_powerOn (c : Circuit) (rom : RomStore) (settings : Config)
    (sequence : List Call) :
    let fresh := create c rom settings
    let sim := fresh.calls sequence
    sim.reset = { fresh with stats := sim.stats } ∧
    sim.reset.state.pending = {} ∧
    (∀ block address, sim.reset.state.ram.read block address = 0) ∧
    (∀ block, sim.reset.state.ram.nonZero block = []) ∧
    ∀ later,
      sim.reset.answers later = fresh.answers later ∧
      (∀ net, (sim.reset.calls later).peek? net = (fresh.calls later).peek? net) ∧
      (sim.reset.calls later).snapshot = (fresh.calls later).snapshot := by
  intro fresh sim
  have hreset : sim.reset = fresh.withStats sim.stats :=
    ((continues_create c rom settings).calls sequence).reset_eq
  refine ⟨hreset, rfl, sim.state.ram.read_clear, sim.state.ram.nonZero_clear, fun later => ?_⟩
  obtain ⟨stats, hcalls, hanswers⟩ := fresh.calls_withStats sim.stats later
  rw [hreset, hcalls]
  exact ⟨hanswers, fun _ => rfl, rfl⟩

end Simulator

end Netlist
