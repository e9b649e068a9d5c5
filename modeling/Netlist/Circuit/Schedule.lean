/-
Module: Netlist.Circuit.Schedule
Layer: Circuit
Purpose: The order in which gates are evaluated. Every gate comes after the gates whose outputs it reads.
  The order is found by releasing gates: first, by index, the gates that read no other gate, then each
  gate as soon as the last gate it waits for has had its turn. Gates that are never released wait for
  each other, and a walk from one of them to what it waits for runs into a cycle.
Imports: Netlist.Circuit.Gate
Main exports: Dependencies, Dependencies.ofGates, Dependencies.schedule
-/
import Netlist.Circuit.Gate

namespace Netlist

/-- For each gate, the gates whose outputs it reads, in operand order and once for each operand. -/
structure Dependencies where
  /-- The gates that each gate waits for. -/
  sources : Array (List Nat)
deriving Repr, Inhabited, DecidableEq

namespace Dependencies

/-- The dependencies among gates, where `producer` names for each net the gate that drives it. -/
def ofGates (gates : Array Gate) (producer : Array (Option Nat)) : Dependencies :=
  ⟨gates.map (fun g => g.inputNets.filterMap (fun net => producer.getD net.index none))⟩

/-- The number of gates. -/
def size (deps : Dependencies) : Nat :=
  deps.sources.size

/-- The gates that one gate waits for. -/
def sourcesOf (deps : Dependencies) (gate : Nat) : List Nat :=
  deps.sources.getD gate []

/-!
### Releasing gates
-/

/-- For each gate, the gates that wait for it, in ascending order and once for each operand. -/
def consumers (deps : Dependencies) : Array (Array Nat) :=
  (List.range deps.size).foldl
    (fun table consumer =>
      (deps.sourcesOf consumer).foldl
        (fun table source => table.modify source (·.push consumer)) table)
    (Array.replicate deps.size #[])

/-- How far the release of gates has come. -/
structure Progress where
  /-- For each gate, how many of its operands still wait for a gate to have its turn. -/
  waiting : Array Nat
  /-- The gates released so far, in order of release. -/
  order : Array Nat
deriving Repr, Inhabited, DecidableEq

/-- At the start, the gates that wait for nothing are released, by index. -/
def initial (deps : Dependencies) : Progress where
  waiting := deps.sources.map List.length
  order := ((List.range deps.size).filter (fun g => (deps.sourcesOf g).isEmpty)).toArray

/-- One operand of `gate` has got its value; the last one releases the gate. -/
def notify (progress : Progress) (gate : Nat) : Progress :=
  let left := progress.waiting.getD gate 0
  let waiting := progress.waiting.setIfInBounds gate (left - 1)
  if left = 1 then { waiting, order := progress.order.push gate }
  else { progress with waiting }

/-- Gives the released gates their turns, from the one at position `next` on. -/
def release (consumers : Array (Array Nat)) : Nat → Nat → Progress → Progress
  | 0, _, progress => progress
  | turns + 1, next, progress =>
    match progress.order[next]? with
    | none => progress
    | some gate =>
      release consumers turns (next + 1) ((consumers.getD gate #[]).foldl notify progress)

/-- All gates that can be released, in order of release. No gate is released twice, so there are no
    more turns than gates. -/
def released (deps : Dependencies) : Array Nat :=
  (release deps.consumers deps.size 0 deps.initial).order

/-!
### Finding a cycle
-/

/-- Walks from a gate to gates it waits for, until one comes up again. The path holds the gates passed
    so far, last gate first. The result is in the direction of the signals: each gate feeds the next and
    the last feeds the first. -/
def walk (deps : Dependencies) (isReleased : Nat → Bool) : Nat → List Nat → Nat → List Nat
  | 0, path, _ => path.reverse
  | steps + 1, path, gate =>
    if path.contains gate then path.takeWhile (· != gate) ++ [gate]
    else
      match (deps.sourcesOf gate).find? (fun source => !isReleased source) with
      | some source => walk deps isReleased steps (gate :: path) source
      | none => (gate :: path).reverse

/-- A cycle among the gates that have not been released, found from the first of them. -/
def cycle (deps : Dependencies) (order : Array Nat) : List Nat :=
  let marks := order.foldl (fun marks g => marks.setIfInBounds g true)
    (Array.replicate deps.size false)
  let isReleased := fun g => marks.getD g false
  match (List.range deps.size).find? (fun g => !isReleased g) with
  | some start => walk deps isReleased (deps.size + 1) [] start
  | none => []

/-- The evaluation order of all gates, or the gates on a cycle. -/
def schedule (deps : Dependencies) : Except (List Nat) (List Nat) :=
  let order := deps.released
  if order.size = deps.size then .ok order.toList else .error (deps.cycle order)

end Dependencies

end Netlist
