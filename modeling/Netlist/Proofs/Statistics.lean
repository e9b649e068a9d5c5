/-
Module: Netlist.Proofs.Statistics
Layer: Proofs
Purpose: The counters count accepted steps and nothing else. A step that is accepted adds one step, every gate
  and every register once, and a write for each block that its settled nets enable; the gates are counted by
  the schedule, which has each of them once. All other requests leave the counters alone, so after any
  requests the counters tell how many steps were accepted and what they wrote. A simulation that keeps no
  counters has the same answers.
Imports: Mathlib.Data.List.ProdSigma, Netlist.Proofs.Commit, Netlist.Proofs.PowerOn, Netlist.Proofs.Refusal
Main exports: Simulator.Request, Simulator.Response, Simulator.serveAll, Simulator.responses,
  Simulator.settledTables, Statistics.GrowsBy, Simulator.growsBy_run, Simulator.growsBy_serveAll,
  Simulator.serveAll_recounted, Description.statistics_count_accepted_steps
-/
import Mathlib.Data.List.ProdSigma
import Netlist.Proofs.Commit
import Netlist.Proofs.PowerOn
import Netlist.Proofs.Refusal

namespace Netlist

/-!
### Requests
-/

namespace Simulator

/-- A request to a simulation: a call that can change it, or a look at it. -/
inductive Request where
  | call (call : Call)
  | peek (net : String)
  | snapshot

/-- What a request is answered with. -/
inductive Response where
  | call (answer : Answer)
  | peek (value : Option Word)
  | snapshot (contents : Snapshot)

/-- What a request leaves of a simulation. -/
def serve (sim : Simulator) : Request → Simulator
  | .call call => sim.call call
  | .peek _ => sim
  | .snapshot => sim

/-- What a sequence of requests leaves of a simulation. -/
def serveAll (sim : Simulator) (requests : List Request) : Simulator :=
  requests.foldl serve sim

/-- The response of a simulation to a request. -/
def respond (sim : Simulator) : Request → Response
  | .call call => .call (sim.answer call)
  | .peek net => .peek (sim.peek? net)
  | .snapshot => .snapshot sim.snapshot

/-- The responses of a simulation to a sequence of requests. -/
def responses (sim : Simulator) : List Request → List Response
  | [] => []
  | first :: rest => sim.respond first :: (sim.serve first).responses rest

/-- The settled nets of the accepted steps of a run, up to the first vector that is refused. -/
def settledIn (sim : Simulator) : List InputVector → List NetTable
  | [] => []
  | inputs :: rest =>
    match matchInputs sim.circuit.inputs inputs with
    | .error _ => []
    | .ok assignments => sim.settled assignments :: (sim.call (.step inputs)).settledIn rest

/-- The settled nets of the accepted steps of a request. -/
def settledBy (sim : Simulator) : Request → List NetTable
  | .call (.step inputs) => sim.settledIn [inputs]
  | .call (.run vectors) => sim.settledIn vectors
  | .call .reset => []
  | .peek _ => []
  | .snapshot => []

/-- The settled nets of the accepted steps of a sequence of requests, one table for each step. -/
def settledTables (sim : Simulator) : List Request → List NetTable
  | [] => []
  | first :: rest => sim.settledBy first ++ (sim.serve first).settledTables rest

end Simulator

/-!
### What counts
-/

namespace Statistics

variable {c : Circuit} {tables tables' : List NetTable} {before between after : Statistics}

/-- The counters grow by what accepted steps do whose nets settle to the given tables. -/
structure GrowsBy (c : Circuit) (tables : List NetTable) (before after : Statistics) : Prop where
  steps : after.steps = before.steps + tables.length
  gates : after.gateEvaluations = before.gateEvaluations + tables.length * c.gates.size
  registers : after.registerCommits = before.registerCommits + tables.length * c.registers.length
  writes : after.ramWrites = before.ramWrites +
    (tables ×ˢ c.rams).countP (fun pair => pair.2.writeEnable.read pair.1 ≠ 0)

theorem GrowsBy.refl (c : Circuit) (stats : Statistics) : GrowsBy c [] stats stats := by
  constructor <;> simp

theorem GrowsBy.trans (h : GrowsBy c tables before between) (h' : GrowsBy c tables' between after) :
    GrowsBy c (tables ++ tables') before after where
  steps := by rw [h'.steps, h.steps, List.length_append, Nat.add_assoc]
  gates := by rw [h'.gates, h.gates, List.length_append, Nat.add_mul, Nat.add_assoc]
  registers := by rw [h'.registers, h.registers, List.length_append, Nat.add_mul, Nat.add_assoc]
  writes := by
    have hpairs : (tables ++ tables') ×ˢ c.rams = tables ×ˢ c.rams ++ tables' ×ˢ c.rams :=
      List.flatMap_append
    rw [h'.writes, h.writes, hpairs, List.countP_append, Nat.add_assoc]

/-- From zero, the counters are what the steps did. -/
theorem GrowsBy.eq_of_zero (h : GrowsBy c tables {} after) : after = {
    steps := tables.length
    gateEvaluations := tables.length * c.gates.size
    registerCommits := tables.length * c.registers.length
    ramWrites := (tables ×ˢ c.rams).countP (fun pair => pair.2.writeEnable.read pair.1 ≠ 0) } := by
  rcases after with ⟨steps, gates, registers, writes⟩
  rcases h with ⟨hsteps, hgates, hregisters, hwrites⟩
  simp only [Nat.zero_add] at hsteps hgates hregisters hwrites
  rw [hsteps, hgates, hregisters, hwrites]

end Statistics

namespace Simulator

open Statistics (GrowsBy)

variable {c : Circuit} {rom : RomStore} {settings : Config} {sim : Simulator} {inputs : InputVector}
  {assignments : List (NetId × Word)}

/-- A step with matched inputs commits what the settled nets ask for. -/
theorem step_of_matchInputs (h : matchInputs sim.circuit.inputs inputs = .ok assignments) :
    ∃ next, sim.step inputs = .ok (outputs sim.circuit (sim.settled assignments), next) ∧
      next.stats = sim.count sim.circuit.schedule.length ⟨sim.circuit.registers.length,
        sim.circuit.rams.countP (fun ram => ram.writeEnable.read (sim.settled assignments) ≠ 0)⟩ := by
  rw [step, h]
  refine ⟨_, rfl, ?_⟩
  exact congrArg (sim.count _) (State.count_commit rfl)

theorem step_of_matchInputs_error {fault : StepError}
    (h : matchInputs sim.circuit.inputs inputs = .error fault) : sim.step inputs = .error fault := by
  rw [step, h]
  rfl

/-- A step is a run with one vector. -/
theorem call_step_eq (sim : Simulator) (inputs : InputVector) :
    sim.call (.step inputs) = (sim.run [inputs]).2 := by
  rw [call]
  cases h : sim.step inputs with
  | error fault => rw [run_cons_of_error h]
  | ok result => rw [run_cons_of_ok h]; rfl

section Counting

variable (hsound : c.Sound) (hcollect : settings.collectStats = true)

include hsound hcollect

/-- An accepted step counts once. -/
theorem growsBy_step (hsim : sim.Continues c rom settings) {next : Simulator} {output : OutputVector}
    (hmatch : matchInputs sim.circuit.inputs inputs = .ok assignments)
    (hok : sim.step inputs = .ok (output, next)) :
    GrowsBy c [sim.settled assignments] sim.stats next.stats := by
  rcases step_of_matchInputs hmatch with ⟨next', hstep, hstats⟩
  rw [hok] at hstep
  cases hstep
  have hcounting : sim.collectStats = true := hsim.collectStats_eq.trans hcollect
  have hcircuit : sim.circuit = c := hsim.circuit_eq
  -- every gate has one place in the schedule
  have hgates : c.schedule.length = c.gates.size := by
    rw [hsound.schedule_perm.length_eq, List.length_range]
  rw [hstats, count, if_pos hcounting, hcircuit]
  refine ⟨rfl, ?_, ?_, ?_⟩
  · simp [hgates]
  · simp
  · simp [List.countP_map, Function.comp_def]

/-- A run counts its accepted steps, also when it ends in a refusal. -/
theorem growsBy_run (vectors : List InputVector) (hsim : sim.Continues c rom settings) :
    GrowsBy c (sim.settledIn vectors) sim.stats (sim.run vectors).2.stats := by
  induction vectors generalizing sim with
  | nil => exact .refl c sim.stats
  | cons inputs rest ih =>
      rw [settledIn]
      cases hmatch : matchInputs sim.circuit.inputs inputs with
      | error fault =>
          rw [run_cons_of_error (step_of_matchInputs_error hmatch)]
          exact .refl c sim.stats
      | ok assignments =>
          rcases step_of_matchInputs hmatch with ⟨next, hok, -⟩
          have hcall : sim.call (.step inputs) = next := by rw [call, hok]
          rw [run_cons_of_ok hok, hcall]
          exact (growsBy_step hsound hcollect hsim hmatch hok).trans (ih (hsim.step hok))

theorem growsBy_serve (request : Request) (hsim : sim.Continues c rom settings) :
    GrowsBy c (sim.settledBy request) sim.stats (sim.serve request).stats := by
  cases request with
  | call call =>
      cases call with
      | step inputs =>
          rw [serve, call_step_eq]
          exact growsBy_run hsound hcollect [inputs] hsim
      | run vectors => exact growsBy_run hsound hcollect vectors hsim
      | reset => exact .refl c sim.stats
  | peek net => exact .refl c sim.stats
  | snapshot => exact .refl c sim.stats

omit hsound hcollect in
theorem Continues.serve (h : sim.Continues c rom settings) (request : Request) :
    (sim.serve request).Continues c rom settings := by
  cases request with
  | call call => exact h.calls [call]
  | peek net => exact h
  | snapshot => exact h

omit hsound hcollect in
theorem Continues.serveAll (h : sim.Continues c rom settings) (requests : List Request) :
    (sim.serveAll requests).Continues c rom settings := by
  induction requests generalizing sim with
  | nil => exact h
  | cons first rest ih => exact ih (h.serve first)

/-- The counters grow by all accepted steps of a sequence of requests. -/
theorem growsBy_serveAll (requests : List Request) (hsim : sim.Continues c rom settings) :
    GrowsBy c (sim.settledTables requests) sim.stats (sim.serveAll requests).stats := by
  induction requests generalizing sim with
  | nil => exact .refl c sim.stats
  | cons first rest ih =>
      exact (growsBy_serve hsound hcollect first hsim).trans (ih (hsim.serve first))

end Counting

/-!
### Without counters
-/

theorem serve_recounted (sim : Simulator) (collect : Bool) (stats : Statistics) (request : Request) :
    ∃ stats', (collect = false → stats' = stats) ∧
      (sim.recounted collect stats).serve request = (sim.serve request).recounted collect stats' ∧
      (sim.recounted collect stats).respond request = sim.respond request := by
  cases request with
  | call call =>
      rcases sim.call_recounted collect stats call with ⟨after, hafter, hcall, hanswer⟩
      exact ⟨after, hafter, hcall, congrArg Response.call hanswer⟩
  | peek net => exact ⟨stats, fun _ => rfl, rfl, rfl⟩
  | snapshot => exact ⟨stats, fun _ => rfl, rfl, rfl⟩

/-- With other counters a sequence of requests has the same responses. Where none are kept, they stay as they
    are. -/
theorem serveAll_recounted (sim : Simulator) (collect : Bool) (stats : Statistics)
    (requests : List Request) : ∃ stats', (collect = false → stats' = stats) ∧
      (sim.recounted collect stats).serveAll requests =
        (sim.serveAll requests).recounted collect stats' ∧
      (sim.recounted collect stats).responses requests = sim.responses requests := by
  induction requests generalizing sim stats with
  | nil => exact ⟨stats, fun _ => rfl, rfl, rfl⟩
  | cons first rest ih =>
      rcases sim.serve_recounted collect stats first with ⟨between, hbetween, hserve, hrespond⟩
      rcases ih (sim.serve first) between with ⟨last, hlast, hserveAll, hresponses⟩
      refine ⟨last, fun hoff => (hlast hoff).trans (hbetween hoff), ?_, ?_⟩
      · rw [serveAll, List.foldl_cons, hserve]
        exact hserveAll
      · rw [responses, hrespond, hserve, hresponses, responses]

/-- A vector that does not suit the pins is refused. -/
theorem exists_step_eq_error (h : ¬ Suits sim.circuit.inputs inputs) :
    ∃ fault, sim.step inputs = .error fault := by
  cases hstep : sim.step inputs with
  | error fault => exact ⟨fault, rfl⟩
  | ok result => exact absurd (exists_step_iff.1 ⟨result.1, result.2, hstep⟩) h

end Simulator

namespace Description

/-- Statistics count exactly the accepted work. After any requests to a simulation of a compiled description,
    with any ROM contents and settings but with the counters on: the steps are the accepted steps, those
    before the refusal in a run included; gate evaluations and register commits are as many as there are
    gates and registers, for each accepted step; and the RAM writes are the pairs of an accepted step and a
    block whose write enable was not zero in the settled nets of the step. Resets and refused vectors change
    no counter. With the counters off they all stay zero, and every request has the same response. -/
theorem statistics_count_accepted_steps {d : Description} {config : Config} {c : Circuit}
    (h : d.compile config = .ok c) (rom : RomStore) (settings : Config)
    (requests : List Simulator.Request) :
    let on := Simulator.create c rom { settings with collectStats := true }
    let off := Simulator.create c rom { settings with collectStats := false }
    let tables := on.settledTables requests
    let sim := on.serveAll requests
    sim.stats = {
      steps := tables.length
      gateEvaluations := tables.length * c.gates.size
      registerCommits := tables.length * c.registers.length
      ramWrites := (tables ×ˢ c.rams).countP (fun pair => pair.2.writeEnable.read pair.1 ≠ 0) } ∧
    sim.reset.stats = sim.stats ∧
    (∀ inputs, ¬ Suits c.inputs inputs →
      ((InPlace.step inputs).outcome sim).2.stats = sim.stats ∧
      ∀ rest, (sim.run (inputs :: rest)).2.stats = sim.stats) ∧
    (off.serveAll requests).stats = {} ∧
    off.responses requests = on.responses requests := by
  intro on off tables sim
  have hon : on.Continues c rom { settings with collectStats := true } :=
    Simulator.continues_create c rom _
  have hgrows : Statistics.GrowsBy c tables on.stats sim.stats :=
    Simulator.growsBy_serveAll (sound_of_compile h) rfl requests hon
  refine ⟨hgrows.eq_of_zero, rfl, ?_, ?_⟩
  · intro inputs hsuits
    have hcircuit : sim.circuit = c := (hon.serveAll requests).circuit_eq
    rw [← hcircuit] at hsuits
    rcases Simulator.exists_step_eq_error hsuits with ⟨fault, hstep⟩
    constructor
    · rw [InPlace.outcome_step_eq_error_iff.2 ⟨hstep, rfl⟩]
    · intro rest
      rw [Simulator.run_cons_of_error hstep]
  · have hoff : off = on.recounted false {} := rfl
    rcases on.serveAll_recounted false {} requests with ⟨stats, hstats, hserved, hresponses⟩
    rw [hoff, hserved, hresponses]
    exact ⟨hstats rfl, rfl⟩

/-- A cell that is written when it is enabled, and a register that keeps whether it was. -/
def latch : Description where
  name := "latch"
  inputs := ["enable"]
  outputs := ["cell"]
  nets := [⟨"enable", 1⟩, ⟨"kept", 1⟩, ⟨"idle", 1⟩, ⟨"cell", 1⟩]
  equations := [
    { target := "kept", op := .reg, args := [.net "enable"] },
    { target := "idle", op := .not, args := [.net "kept"] },
    { target := "cell", op := .ram,
      args := [.const 0 (some 1), .net "enable", .const 0 (some 1), .net "idle"], params := [1, 1] }]

/-- Accepted and refused steps, a run that fails after two steps, and looks and a reset in between. -/
def latchRequests : List Simulator.Request :=
  [.call (.step (.ofList [("enable", 1)])), .peek "cell", .call (.step .empty),
    .call (.run [.ofList [("enable", 0)], .ofList [("enable", 1)], .ofList [("enable", 2)],
      .ofList [("enable", 1)]]),
    .call .reset, .snapshot, .call (.step (.ofList [("enable", 1)]))]

/-- Of these requests four steps are accepted, and three of them write to the cell. A vector without a value
    for the pin then changes nothing. -/
theorem statistics_count_accepted_steps_latch : ∃ c, latch.compile .standard = .ok c ∧
    let rom := RomStore.ofCircuit c .standard
    let on := Simulator.create c rom { Config.standard with collectStats := true }
    let off := Simulator.create c rom { Config.standard with collectStats := false }
    (on.serveAll latchRequests).stats = ⟨4, 8, 4, 3⟩ ∧
    ¬ Suits c.inputs .empty ∧
    ((InPlace.step .empty).outcome (on.serveAll latchRequests)).2.stats = ⟨4, 8, 4, 3⟩ ∧
    (off.serveAll latchRequests).stats = {} ∧
    off.responses latchRequests = on.responses latchRequests := by
  rcases exists_eq_ok_of_isOk (x := latch.compile .standard) (by decide +kernel) with ⟨c, hc⟩
  have hlatch : (match latch.compile .standard with
      | .ok c =>
        let rom := RomStore.ofCircuit c .standard
        let on := Simulator.create c rom { Config.standard with collectStats := true }
        let tables := on.settledTables latchRequests
        decide (tables.length = 4) && decide (c.gates.size = 2) && decide (c.registers.length = 1) &&
          decide ((tables ×ˢ c.rams).countP
            (fun pair => pair.2.writeEnable.read pair.1 ≠ 0) = 3) &&
          !(matchInputs c.inputs .empty).isOk
      | .error _ => false) = true := by
    decide +kernel
  rw [hc] at hlatch
  simp only [Bool.and_eq_true, decide_eq_true_iff, Bool.not_eq_true'] at hlatch
  rcases hlatch with ⟨⟨⟨⟨hsteps, hgates⟩, hregisters⟩, hwrites⟩, hrefused⟩
  have hsuits : ¬ Suits c.inputs .empty := by
    rw [← exists_matchInputs_iff]
    intro hmatch
    rcases hmatch with ⟨assignments, hmatch⟩
    rw [hmatch] at hrefused
    cases hrefused
  rcases statistics_count_accepted_steps hc (RomStore.ofCircuit c .standard) .standard latchRequests
    with ⟨hstats, -, hunsuited, hoff, hresponses⟩
  rw [hsteps, hgates, hregisters, hwrites] at hstats
  exact ⟨c, hc, hstats, hsuits, (hunsuited .empty hsuits).1.trans hstats, hoff, hresponses⟩

end Description

end Netlist
