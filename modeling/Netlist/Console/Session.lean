/-
Module: Netlist.Console.Session
Layer: Console
Purpose: Running a circuit at the console. In each round the input pins are prompted for, one step is run
  and the output pins are printed, until the step limit is reached or input ends. A circuit without
  input pins reads nothing, so only a limit brings it to an end.
Imports: Netlist.Console.Prompt, Netlist.Simulation.Simulator
Main exports: SessionError, Ending, Session, Session.run, Session.rounds
-/
import Netlist.Console.Prompt
import Netlist.Simulation.Simulator

namespace Netlist.Console

/-- Why a session breaks off. -/
inductive SessionError where
  /-- The console could not be read. -/
  | terminal (cause : IoFailure)
  /-- A step was refused. -/
  | step (fault : StepError)
deriving Repr, Inhabited, DecidableEq

/-- The wording of why a session breaks off. -/
def SessionError.message : SessionError → String
  | .terminal cause => "terminal I/O failed: " ++ cause.message
  | .step fault => fault.message

/-- Where a session stands. -/
inductive Ending where
  /-- The rounds asked for have been run. -/
  | running
  /-- Input has ended. -/
  | inputEnded
  /-- The session has broken off. -/
  | failed (fault : SessionError)
deriving Repr, Inhabited, DecidableEq

/-- What a session has come to. -/
structure Session where
  /-- Where it stands. -/
  ending : Ending
  /-- What has been printed. -/
  printed : String
  /-- The simulation as it stands. -/
  simulator : Simulator
  /-- The number of steps that have been run. -/
  steps : Nat
deriving Repr, Inhabited, DecidableEq

/-- What is printed after a step. -/
def outputText (outputs : OutputVector) : String :=
  outputs.text ++ "\n"

namespace Session

/-- Runs up to the given number of rounds. -/
def run (sim : Simulator) : Nat → List Item → Session
  | 0, _ => ⟨.running, "", sim, 0⟩
  | rounds + 1, rest =>
    let asked := ask sim.circuit.inputs rest
    match asked.reply with
    | .ended => ⟨.inputEnded, asked.printed ++ "\n", sim, 0⟩
    | .failed cause => ⟨.failed (.terminal cause), asked.printed, sim, 0⟩
    | .answer inputs =>
      match sim.step inputs with
      | .error fault => ⟨.failed (.step fault), asked.printed, sim, 0⟩
      | .ok (outputs, next) =>
        let later := run next rounds asked.rest
        { later with
          printed := asked.printed ++ outputText outputs ++ later.printed
          steps := later.steps + 1 }

/-- The number of rounds after which a session with the given limit is over. Each round of a circuit
    with input pins reads at least one item, and one more round meets the end of input. A circuit
    without input pins and without a limit would go on for ever; it is followed for as many rounds. -/
def rounds (c : Circuit) (limit : Option Nat) (input : List Item) : Nat :=
  match limit with
  | none => input.length + 1
  | some limit => if c.inputs.isEmpty then limit else min limit (input.length + 1)

/-- Runs a session on everything that is typed. -/
def complete (sim : Simulator) (limit : Option Nat) (bytes : List UInt8) : Session :=
  let input := items bytes
  run sim (rounds sim.circuit limit input) input

end Session

end Netlist.Console
