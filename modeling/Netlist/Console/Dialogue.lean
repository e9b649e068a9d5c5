/-
Module: Netlist.Console.Dialogue
Layer: Console
Purpose: A session as it is typed, one read at a time. A dialogue that is under way says what it needs to
  go on, which is the next item or nothing, and what comes of it. The program takes one turn of its
  dialogue after the other.
Imports: Netlist.Console.Session
Main exports: Dialogue, Dialogue.start, Turn, Action, Dialogue.action
-/
import Netlist.Console.Session

namespace Netlist.Console

/-- A session under way. In its current round some of the pins have been given their values. -/
structure Dialogue where
  /-- The simulation as it stands. -/
  simulator : Simulator
  /-- The number of steps that have been run. -/
  steps : Nat
  /-- The values that have been given in this round. -/
  inputs : InputVector
  /-- The pins that are still to be asked for in this round. -/
  pins : List Pin
deriving Repr, Inhabited, DecidableEq

/-- What comes of a turn. -/
structure Turn where
  /-- What is printed. -/
  printed : String := ""
  /-- What is worth noting. -/
  events : List Event := []
  /-- The dialogue that goes on, unless the session is over. -/
  next : Except Ending Dialogue

/-- What a dialogue does next. -/
inductive Action where
  /-- It takes a turn. -/
  | take (turn : Turn)
  /-- It prompts for a pin, and takes a turn with the item that is read, or with the end of input. -/
  | prompt (pin : Pin) (turn : Option Item → Turn)

namespace Dialogue

/-- A dialogue at the start of a round. -/
def start (sim : Simulator) (steps : Nat) : Dialogue :=
  ⟨sim, steps, .empty, sim.circuit.inputs⟩

/-- The turn in which a pin is asked for, when other pins come after it. -/
def hear (dialogue : Dialogue) (pin : Pin) (pins : List Pin) (item : Option Item) : Turn :=
  match Console.hear pin item with
  | .closed (.answer value) =>
    { next := .ok { dialogue with inputs := dialogue.inputs.insert pin.name value, pins } }
  | .closed .ended => { printed := "\n", next := .error .inputEnded }
  | .closed (.failed cause) => { next := .error (.failed (.terminal cause)) }
  | .again event => { events := [event], next := .ok dialogue }

/-- The turn in which a step is run, when all pins have their values. -/
def step (dialogue : Dialogue) : Turn :=
  match dialogue.simulator.step dialogue.inputs with
  | .error fault => { next := .error (.failed (.step fault)) }
  | .ok (outputs, next) =>
    { printed := outputText outputs, next := .ok (start next (dialogue.steps + 1)) }

/-- What a dialogue does next, when there is a limit on the number of steps. -/
def action (limit : Option Nat) (dialogue : Dialogue) : Action :=
  if limit.any (· ≤ dialogue.steps) then .take { next := .error .running }
  else
    match dialogue.pins with
    | [] => .take dialogue.step
    | pin :: pins => .prompt pin (dialogue.hear pin pins)

end Dialogue

end Netlist.Console
