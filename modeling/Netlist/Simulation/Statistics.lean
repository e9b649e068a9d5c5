/-
Module: Netlist.Simulation.Statistics
Layer: Simulation
Purpose: Counters of what a simulation has done, and their report.
Imports: Netlist.Numeric.Binary64
Main exports: Statistics, Statistics.gatesPerStep, Statistics.report
-/
import Netlist.Numeric.Binary64

namespace Netlist

/-- What a simulation has done so far. Refused steps do not count. -/
structure Statistics where
  /-- Steps completed. -/
  steps : Nat := 0
  /-- Gates evaluated. -/
  gateEvaluations : Nat := 0
  /-- Registers that took their next value. -/
  registerCommits : Nat := 0
  /-- Words written to RAM blocks. -/
  ramWrites : Nat := 0
deriving Repr, Inhabited, DecidableEq

namespace Statistics

open Numeric (Binary64)

/-- Gate evaluations per step, zero before the first step. Both counters are rounded to binary64, and
    so is their quotient. -/
def gatesPerStep (s : Statistics) : Binary64 :=
  if s.steps = 0 then .zero
  else .ofQuotient (Binary64.roundNat s.gateEvaluations) (Binary64.roundNat s.steps)

/-- The lines of the report. -/
def report (s : Statistics) : List String :=
  ["==========================================================",
   "NETLIST SIMULATION STATISTICS",
   "==========================================================",
   "sim_steps                " ++ toString s.steps,
   "gate_evals               " ++ toString s.gateEvaluations,
   "gate_evals_per_step      " ++ s.gatesPerStep.fixed 2,
   "register_commits         " ++ toString s.registerCommits,
   "ram_writes               " ++ toString s.ramWrites,
   "----------------------------------------------------------"]

end Statistics

end Netlist
