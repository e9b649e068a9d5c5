/-
Module: Netlist.Proofs.InPlace
Layer: Proofs
Purpose: Computations on a variable. An operation that returns a new value or a fault cannot leave a value
  half changed. A computation in place can: it stores into a variable as it goes, and a fault ends it with
  the variable as it is at that moment. When such a computation has the outcome of an operation, all or
  nothing of the operation takes effect. Here are the rules by which outcomes are computed.
Imports: Netlist.Proofs.Sequence
Main exports: InPlace, InPlace.outcome, InPlace.check, InPlace.allOrNothing,
  InPlace.allOrNothing_eq_error_iff, InPlace.outcome_bind_of_ok, InPlace.outcome_bind_of_error,
  InPlace.outcome_forM_modify
-/
import Netlist.Proofs.Sequence

namespace Netlist

/-- A computation on a variable. A fault ends it and leaves the variable as it is at that moment. -/
abbrev InPlace (ε σ : Type) :=
  ExceptT ε (StateM σ)

namespace InPlace

variable {ε σ α β : Type}

/-- The result of a computation, and what it leaves in the variable. -/
def outcome (x : InPlace ε σ α) (s : σ) : Except ε α × σ :=
  x.run.run s

/-- A check, which does not touch the variable. -/
def check (x : Except ε α) : InPlace ε σ α :=
  ExceptT.mk (pure x)

/-- The outcome that an operation asks for: with its result the new value is stored, with a fault the
    variable keeps what it held. -/
def allOrNothing (result : Except ε (α × σ)) (s : σ) : Except ε α × σ :=
  match result with
  | .ok (a, next) => (.ok a, next)
  | .error fault => (.error fault, s)

/-!
### Outcomes
-/

variable {x : InPlace ε σ α} {s s' : σ} {a : α} {fault : ε} {result : Except ε (α × σ)}

theorem allOrNothing_eq_ok_iff : allOrNothing result s = (.ok a, s') ↔ result = .ok (a, s') := by
  cases result with
  | error fault => simp [allOrNothing]
  | ok pair => simp [allOrNothing, Prod.ext_iff]

theorem allOrNothing_eq_error_iff :
    allOrNothing result s = (.error fault, s') ↔ result = .error fault ∧ s' = s := by
  cases result with
  | error fault => simp [allOrNothing, eq_comm]
  | ok pair => simp [allOrNothing]

@[simp] theorem outcome_check (x : Except ε α) (s : σ) :
    outcome (check x : InPlace ε σ α) s = (x, s) :=
  rfl

@[simp] theorem outcome_get (s : σ) : outcome (get : InPlace ε σ σ) s = (.ok s, s) :=
  rfl

@[simp] theorem outcome_modify (f : σ → σ) (s : σ) :
    outcome (modify f : InPlace ε σ PUnit) s = (.ok ⟨⟩, f s) :=
  rfl

/-- A computation goes on with what its first part leaves. -/
theorem outcome_bind_of_ok (h : outcome x s = (.ok a, s')) (f : α → InPlace ε σ β) :
    outcome (x >>= f) s = outcome (f a) s' := by
  have hrun : StateT.run (ExceptT.run x) s = (.ok a, s') := h
  rw [outcome, ExceptT.run_bind, StateT.run_bind, hrun]
  rfl

/-- A fault of the first part ends the computation. -/
theorem outcome_bind_of_error (h : outcome x s = (.error fault, s')) (f : α → InPlace ε σ β) :
    outcome (x >>= f) s = (.error fault, s') := by
  have hrun : StateT.run (ExceptT.run x) s = (.error fault, s') := h
  rw [outcome, ExceptT.run_bind, StateT.run_bind, hrun]
  rfl

/-- A loop of changes makes them one after the other. -/
theorem outcome_forM_modify (entries : List α) (f : α → σ → σ) (s : σ) :
    outcome (forM entries (fun a => modify (f a)) : InPlace ε σ PUnit) s =
      (.ok ⟨⟩, entries.foldl (fun s a => f a s) s) := by
  induction entries generalizing s with
  | nil => rfl
  | cons a rest ih =>
      rw [List.forM_cons, outcome_bind_of_ok (outcome_modify (f a) s), ih]
      rfl

end InPlace

end Netlist
