/-
Module: Netlist.Proofs.Refusal
Layer: Proofs
Purpose: Which steps are refused, and why. A vector suits the pins when it names them all, nothing else, and
  gives each a value of its width; any other vector is refused for the first fault in a fixed order: a pin
  without a value, a name that is no pin, a value that is too wide. A step in place touches nothing before
  the last check, so a refusal leaves everything as it was, and a run ends in the state in which its first
  refused vector finds it.
Imports: Netlist.Proofs.Calls, Netlist.Proofs.InPlace, Netlist.Proofs.Listing, Netlist.Proofs.Text.ByteOrder
Main exports: SortedMap.keys, Suits, Refuses, exists_matchInputs_iff, matchInputs_eq_error_iff,
  InPlace.step, InPlace.run, InPlace.outcome_step, InPlace.outcome_run, Simulator.Steps,
  Simulator.run_eq_ok_iff, Simulator.run_eq_error_iff, Simulator.steps_and_runs_answer
-/
import Netlist.Proofs.Calls
import Netlist.Proofs.InPlace
import Netlist.Proofs.Listing
import Netlist.Proofs.Text.ByteOrder

namespace Netlist

/-!
### Names of a vector
-/

namespace SortedMap

variable {κ ν : Type} [Ord κ] {m : SortedMap κ ν} {key : κ}

/-- The keys of a map, in ascending order. -/
def keys (m : SortedMap κ ν) : List κ :=
  m.entries.map Prod.fst

theorem mem_keys_iff [Std.LawfulEqOrd κ] [Std.OrientedOrd κ] :
    key ∈ m.keys ↔ ∃ value, m.get? key = some value := by
  simp only [keys, List.mem_map, get?_eq_some_iff, Prod.exists, exists_and_right, exists_eq_right]

theorem get?_eq_none_iff [Std.LawfulEqOrd κ] [Std.OrientedOrd κ] : m.get? key = none ↔ key ∉ m.keys := by
  rw [mem_keys_iff, ← Option.isSome_iff_exists, Bool.not_eq_true, Option.isSome_eq_false_iff,
    Option.isNone_iff_eq_none]

/-- Looking for a key through the entries finds the least. -/
theorem find?_entries_iff [Std.LawfulEqOrd κ] [Std.OrientedOrd κ] {p : κ → Bool} :
    (∃ value, m.entries.find? (fun e => p e.1) = some (key, value)) ↔
      key ∈ m.keys ∧ p key = true ∧
        ∀ other ∈ m.keys, p other = true → other ≠ key → compare key other = .lt := by
  have hleast : ∀ {key : κ} {value : ν}, m.entries.find? (fun e => p e.1) = some (key, value) →
      ∀ other ∈ m.keys, p other = true → other ≠ key → compare key other = .lt := by
    intro key value hfind other hother hp hne
    obtain ⟨-, before, after, hentries, hbefore⟩ := List.find?_eq_some_iff_append.1 hfind
    obtain ⟨e, he, rfl⟩ := List.mem_map.1 hother
    rw [hentries, List.mem_append, List.mem_cons] at he
    rcases he with he | rfl | he
    · have hnot := hbefore e he
      simp [hp] at hnot
    · exact absurd rfl hne
    · have hascending := m.ascending
      rw [hentries] at hascending
      exact List.rel_of_pairwise_cons (List.pairwise_append.1 hascending).2.1 he
  constructor
  · rintro ⟨value, hfind⟩
    have hp : p key = true := by simpa using List.find?_some hfind
    exact ⟨List.mem_map.2 ⟨_, List.mem_of_find?_eq_some hfind, rfl⟩, hp, hleast hfind⟩
  · rintro ⟨hmem, hp, hkey⟩
    cases hfind : m.entries.find? (fun e => p e.1) with
    | none =>
        obtain ⟨e, he, rfl⟩ := List.mem_map.1 hmem
        exact absurd hp (List.find?_eq_none.1 hfind e he)
    | some found =>
        obtain ⟨key', value⟩ := found
        have hmem' : key' ∈ m.keys := List.mem_map.2 ⟨_, List.mem_of_find?_eq_some hfind, rfl⟩
        by_cases hne : key' = key
        · exact ⟨value, by rw [hne]⟩
        · -- each of two different keys would be below the other
          have hp' : p key' = true := by simpa using List.find?_some hfind
          have hlt := hkey key' hmem' hp' hne
          have hgt := hleast hfind key hmem hp (Ne.symm hne)
          rw [Std.OrientedCmp.gt_of_lt hlt] at hgt
          cases hgt

end SortedMap

/-!
### Suitable vectors and the order of faults
-/

/-- A vector names the pins and nothing else, and gives each pin a value of its width. -/
structure Suits (pins : List Pin) (inputs : InputVector) : Prop where
  names : ∀ name, name ∈ inputs.keys ↔ name ∈ pins.map Pin.name
  fits : ∀ pin ∈ pins, ∀ value, inputs.get? pin.name = some value → value.toNat < 2 ^ pin.width

/-- A vector is refused for a fault. -/
inductive Refuses (pins : List Pin) (inputs : InputVector) : StepError → Prop where
  /-- This is the first pin without a value. -/
  | missing {before after : List Pin} {pin : Pin} (pins_eq : pins = before ++ pin :: after)
      (given : ∀ earlier ∈ before, earlier.name ∈ inputs.keys) (absent : pin.name ∉ inputs.keys) :
      Refuses pins inputs (.missingInput pin.name)
  /-- All pins have values, and this is the least name that is no pin, in the order of bytes. -/
  | unknown {name : String} (given : ∀ pin ∈ pins, pin.name ∈ inputs.keys) (named : name ∈ inputs.keys)
      (noPin : name ∉ pins.map Pin.name)
      (least : ∀ other ∈ inputs.keys, other ∉ pins.map Pin.name → other ≠ name →
        Text.Utf8.encode name < Text.Utf8.encode other) :
      Refuses pins inputs (.unknownInput name)
  /-- The names are those of the pins, and this is the first pin whose value does not fit. -/
  | tooWide {before after : List Pin} {pin : Pin} {value : Word}
      (names : ∀ name, name ∈ inputs.keys ↔ name ∈ pins.map Pin.name)
      (pins_eq : pins = before ++ pin :: after)
      (fits : ∀ earlier ∈ before, ∀ value, inputs.get? earlier.name = some value →
        value.toNat < 2 ^ earlier.width)
      (found : inputs.get? pin.name = some value) (wide : ¬ value.toNat < 2 ^ pin.width) :
      Refuses pins inputs (.valueOutOfRange pin.name value pin.width)

section Match

variable {pins : List Pin} {inputs : InputVector} {fault : StepError}

/-- The first check passes when all pins have values. -/
theorem findMissing_eq_none_iff :
    pins.find? (fun pin => (inputs.get? pin.name).isNone) = none ↔
      ∀ pin ∈ pins, pin.name ∈ inputs.keys := by
  rw [List.find?_eq_none]
  simp only [Option.isNone_iff_eq_none, SortedMap.get?_eq_none_iff, not_not]

/-- The second check passes when all names are pins. -/
theorem findUnknown_eq_none_iff :
    inputs.entries.find? (fun e => !pins.any (fun pin => pin.name == e.1)) = none ↔
      ∀ name ∈ inputs.keys, name ∈ pins.map Pin.name := by
  rw [List.find?_eq_none, SortedMap.keys]
  simp [List.mem_map]

/-- The second check finds the least name that is no pin. -/
theorem findUnknown_eq_some_iff {name : String} :
    (∃ value, inputs.entries.find? (fun e => !pins.any (fun pin => pin.name == e.1)) = some (name, value)) ↔
      name ∈ inputs.keys ∧ name ∉ pins.map Pin.name ∧
        ∀ other ∈ inputs.keys, other ∉ pins.map Pin.name → other ≠ name →
          Text.Utf8.encode name < Text.Utf8.encode other := by
  have hnoPin : ∀ name : String,
      (!pins.any (fun pin => pin.name == name)) = true ↔ name ∉ pins.map Pin.name := by
    intro name
    simp [List.mem_map]
  rw [SortedMap.find?_entries_iff (p := fun name => !pins.any (fun pin => pin.name == name))]
  simp only [hnoPin, compare_lt_iff_lt, Text.Utf8.encode_lt_encode_iff]

/-- The last check passes for a pin whose value fits. -/
def checkWidth (inputs : InputVector) (pin : Pin) : Except StepError (NetId × Word) :=
  let value := (inputs.get? pin.name).getD 0
  if Word.fits value pin.width then .ok (pin.net, value)
  else .error (.valueOutOfRange pin.name value pin.width)

theorem checkWidth_eq_ok_iff {pin : Pin} {value : Word} (hvalue : inputs.get? pin.name = some value) :
    (∃ a, checkWidth inputs pin = .ok a) ↔ value.toNat < 2 ^ pin.width := by
  rw [checkWidth, hvalue, Option.getD_some, ← Word.fits_iff]
  by_cases h : Word.fits value pin.width = true <;> simp [h]

theorem checkWidth_eq_error_iff {pin : Pin} {value : Word} (hvalue : inputs.get? pin.name = some value) :
    checkWidth inputs pin = .error fault ↔
      ¬ value.toNat < 2 ^ pin.width ∧ fault = .valueOutOfRange pin.name value pin.width := by
  rw [checkWidth, hvalue, Option.getD_some, ← Word.fits_iff]
  by_cases h : Word.fits value pin.width = true
  · simp [h]
  · simp [h, eq_comm]

/-- When the names are those of the pins, only the widths are left to check. -/
theorem matchInputs_of_names (h : ∀ name, name ∈ inputs.keys ↔ name ∈ pins.map Pin.name) :
    matchInputs pins inputs = pins.mapM (checkWidth inputs) := by
  have hmissing := findMissing_eq_none_iff.2
    (fun pin hpin => (h pin.name).2 (List.mem_map.2 ⟨pin, hpin, rfl⟩))
  have hunknown := findUnknown_eq_none_iff.2 (fun name hname => (h name).1 hname)
  unfold matchInputs
  rw [hmissing]
  simp only
  rw [hunknown]
  rfl

/-- Unless the names are those of the pins, the fault is about them. -/
theorem matchInputs_cases (pins : List Pin) (inputs : InputVector) :
    (∀ name, name ∈ inputs.keys ↔ name ∈ pins.map Pin.name) ∨
    (∃ pin, pins.find? (fun pin => (inputs.get? pin.name).isNone) = some pin ∧
      matchInputs pins inputs = .error (.missingInput pin.name)) ∨
    ((∀ pin ∈ pins, pin.name ∈ inputs.keys) ∧ ∃ name value,
      inputs.entries.find? (fun e => !pins.any (fun pin => pin.name == e.1)) = some (name, value) ∧
      matchInputs pins inputs = .error (.unknownInput name)) := by
  unfold matchInputs
  cases hmissing : pins.find? (fun pin => (inputs.get? pin.name).isNone) with
  | some pin => exact .inr (.inl ⟨pin, rfl, rfl⟩)
  | none =>
      have hgiven := findMissing_eq_none_iff.1 hmissing
      cases hunknown : inputs.entries.find? (fun e => !pins.any (fun pin => pin.name == e.1)) with
      | some e => exact .inr (.inr ⟨hgiven, e.1, e.2, rfl, rfl⟩)
      | none =>
          have hknown := findUnknown_eq_none_iff.1 hunknown
          refine .inl (fun name => ⟨hknown name, fun hname => ?_⟩)
          obtain ⟨pin, hpin, rfl⟩ := List.mem_map.1 hname
          exact hgiven pin hpin

/-- When the names are those of the pins, every pin has a value. -/
theorem exists_value (h : ∀ name, name ∈ inputs.keys ↔ name ∈ pins.map Pin.name) {pin : Pin}
    (hpin : pin ∈ pins) : ∃ value, inputs.get? pin.name = some value :=
  SortedMap.mem_keys_iff.1 ((h _).2 (List.mem_map.2 ⟨pin, hpin, rfl⟩))

/-- A vector is matched exactly when it suits the pins. -/
theorem exists_matchInputs_iff :
    (∃ assignments, matchInputs pins inputs = .ok assignments) ↔ Suits pins inputs := by
  constructor
  · rintro ⟨assignments, hmatch⟩
    rcases matchInputs_cases pins inputs with hnames | ⟨pin, -, herror⟩ | ⟨-, name, value, -, herror⟩
    · refine ⟨hnames, fun pin hpin value hvalue => ?_⟩
      rw [matchInputs_of_names hnames, mapM_eq_ok_iff] at hmatch
      obtain ⟨a, -, ha⟩ := forall₂_mem_left hmatch hpin
      exact (checkWidth_eq_ok_iff hvalue).1 ⟨a, ha⟩
    · rw [herror] at hmatch
      cases hmatch
    · rw [herror] at hmatch
      cases hmatch
  · rintro ⟨hnames, hfits⟩
    simp only [matchInputs_of_names hnames, mapM_eq_ok_iff]
    refine exists_forall₂ (fun pin hpin => ?_)
    obtain ⟨value, hvalue⟩ := exists_value hnames hpin
    exact (checkWidth_eq_ok_iff hvalue).2 (hfits pin hpin value hvalue)

theorem refuses_of_missing {pin : Pin}
    (h : pins.find? (fun pin => (inputs.get? pin.name).isNone) = some pin) :
    Refuses pins inputs (.missingInput pin.name) := by
  obtain ⟨habsent, before, after, hpins, hbefore⟩ := List.find?_eq_some_iff_append.1 h
  refine .missing hpins (fun earlier hearlier => ?_) ?_
  · rw [SortedMap.mem_keys_iff, ← Option.isSome_iff_exists]
    simpa using hbefore earlier hearlier
  · rw [← SortedMap.get?_eq_none_iff]
    simpa using habsent

theorem refuses_of_checkWidth (hnames : ∀ name, name ∈ inputs.keys ↔ name ∈ pins.map Pin.name)
    (h : pins.mapM (checkWidth inputs) = .error fault) : Refuses pins inputs fault := by
  obtain ⟨k, pin, hk, hpin, assignments, hbefore⟩ := mapM_eq_error_iff.1 h
  obtain ⟨value, hget⟩ := exists_value hnames (List.mem_of_getElem? hk)
  obtain ⟨hwide, rfl⟩ := (checkWidth_eq_error_iff hget).1 hpin
  have hsplit : pins = pins.take k ++ pin :: pins.drop (k + 1) := by
    obtain ⟨hlt, rfl⟩ := List.getElem?_eq_some_iff.1 hk
    rw [List.getElem_cons_drop, List.take_append_drop]
  refine .tooWide hnames hsplit ?_ hget hwide
  intro earlier hearlier value hearlierGet
  obtain ⟨a, -, ha⟩ := forall₂_mem_left hbefore hearlier
  exact (checkWidth_eq_ok_iff hearlierGet).1 ⟨a, ha⟩

/-- A vector with faults is refused for the one that comes first. -/
theorem Refuses.matchInputs_eq (h : Refuses pins inputs fault) :
    matchInputs pins inputs = .error fault := by
  cases h with
  | @missing before after pin pins_eq given absent =>
      have hfind : pins.find? (fun pin => (inputs.get? pin.name).isNone) = some pin := by
        rw [List.find?_eq_some_iff_append]
        refine ⟨?_, before, after, pins_eq, fun earlier hearlier => ?_⟩
        · rw [SortedMap.get?_eq_none_iff.2 absent]
          rfl
        · obtain ⟨value, hget⟩ := SortedMap.mem_keys_iff.1 (given earlier hearlier)
          rw [hget]
          rfl
      unfold matchInputs
      rw [hfind]
  | unknown given named noPin least =>
      obtain ⟨value, hfind⟩ := findUnknown_eq_some_iff.2 ⟨named, noPin, least⟩
      unfold matchInputs
      rw [findMissing_eq_none_iff.2 given]
      simp only
      rw [hfind]
  | @tooWide before after pin value names pins_eq fits found wide =>
      rw [matchInputs_of_names names, mapM_eq_error_iff]
      have hget : pins[before.length]? = some pin := by simp [pins_eq]
      have htake : pins.take before.length = before := by simp [pins_eq]
      refine ⟨before.length, pin, hget, (checkWidth_eq_error_iff found).2 ⟨wide, rfl⟩, ?_⟩
      rw [htake]
      refine exists_forall₂ (fun earlier hearlier => ?_)
      have hmem : earlier ∈ pins := by
        rw [pins_eq]
        exact List.mem_append_left _ hearlier
      obtain ⟨value, hearlierGet⟩ := exists_value names hmem
      exact (checkWidth_eq_ok_iff hearlierGet).2 (fits earlier hearlier value hearlierGet)

/-- A vector is refused for the first of its faults. -/
theorem matchInputs_eq_error_iff : matchInputs pins inputs = .error fault ↔ Refuses pins inputs fault := by
  refine ⟨fun h => ?_, Refuses.matchInputs_eq⟩
  rcases matchInputs_cases pins inputs with hnames | ⟨pin, hfind, herror⟩ |
    ⟨hgiven, name, value, hfind, herror⟩
  · rw [matchInputs_of_names hnames] at h
    exact refuses_of_checkWidth hnames h
  · rw [herror] at h
    cases h
    exact refuses_of_missing hfind
  · rw [herror] at h
    cases h
    obtain ⟨hnamed, hnoPin, hleast⟩ := findUnknown_eq_some_iff.1 ⟨value, hfind⟩
    exact .unknown hgiven hnamed hnoPin hleast

end Match

/-!
### Steps in place
-/

namespace InPlace

/-- Runs one step. The inputs are checked, the circuit settles, the outputs are read, and what has been
    sampled is committed and counted. -/
def step (inputs : InputVector) : InPlace StepError Simulator OutputVector := do
  let sim ← get
  let assignments ← check (matchInputs sim.circuit.inputs inputs)
  modify (fun sim => { sim with state := sim.state.drive assignments })
  let driven ← get
  let (state, evaluated) := driven.state.settle driven.circuit driven.rom
  modify (fun sim => { sim with state })
  let settled ← get
  modify (fun sim => { sim with state := sim.state.sample sim.circuit })
  let sampled ← get
  let (state, committed) := sampled.state.commit sampled.circuit
  modify (fun sim => { sim with state })
  modify (fun sim => { sim with stats := sim.count evaluated committed })
  pure (Simulator.outputs settled.circuit settled.state.nets)

/-- Runs one step for each vector. -/
def run (vectors : List InputVector) : InPlace StepError Simulator (List OutputVector) :=
  vectors.mapM step

/-- A step in place has the outcome of the step: a refusal leaves the simulation as it was. -/
theorem outcome_step (inputs : InputVector) (sim : Simulator) :
    (step inputs).outcome sim = allOrNothing (sim.step inputs) sim := by
  rw [step, Simulator.step, outcome_bind_of_ok (outcome_get sim)]
  cases hmatch : matchInputs sim.circuit.inputs inputs with
  | error fault => exact outcome_bind_of_error (outcome_check _ sim) _
  | ok assignments => exact outcome_bind_of_ok (outcome_check _ sim) _

theorem outcome_step_eq_ok_iff {inputs : InputVector} {sim next : Simulator} {output : OutputVector} :
    (step inputs).outcome sim = (.ok output, next) ↔ sim.step inputs = .ok (output, next) := by
  rw [outcome_step, allOrNothing_eq_ok_iff]

theorem outcome_step_eq_error_iff {inputs : InputVector} {sim left : Simulator} {fault : StepError} :
    (step inputs).outcome sim = (.error fault, left) ↔ sim.step inputs = .error fault ∧ left = sim := by
  rw [outcome_step, allOrNothing_eq_error_iff]

/-- A run in place has the outcome of the run. -/
theorem outcome_run (vectors : List InputVector) (sim : Simulator) :
    (run vectors).outcome sim = sim.run vectors := by
  induction vectors generalizing sim with
  | nil => rfl
  | cons inputs rest ih =>
      rw [run, List.mapM_cons]
      cases hstep : sim.step inputs with
      | error fault =>
          rw [Simulator.run_cons_of_error hstep]
          exact outcome_bind_of_error (outcome_step_eq_error_iff.2 ⟨hstep, rfl⟩) _
      | ok result =>
          obtain ⟨output, next⟩ := result
          rw [Simulator.run_cons_of_ok hstep, outcome_bind_of_ok (outcome_step_eq_ok_iff.2 hstep)]
          have hrest := ih next
          cases hrun : next.run rest with
          | mk result last =>
              rw [hrun] at hrest
              cases result with
              | error fault => exact outcome_bind_of_error hrest _
              | ok later => exact outcome_bind_of_ok hrest _

end InPlace

/-!
### Runs
-/

namespace Simulator

variable {sim last : Simulator} {inputs : InputVector} {vectors : List InputVector} {fault : StepError}
  {outputs : List OutputVector}

theorem exists_step_iff :
    (∃ output next, sim.step inputs = .ok (output, next)) ↔ Suits sim.circuit.inputs inputs := by
  rw [← exists_matchInputs_iff, step]
  cases matchInputs sim.circuit.inputs inputs with
  | error fault => simp [bind, Except.bind]
  | ok assignments => simp [bind, Except.bind]

theorem step_eq_error_iff : sim.step inputs = .error fault ↔ Refuses sim.circuit.inputs inputs fault := by
  rw [← matchInputs_eq_error_iff, step]
  cases matchInputs sim.circuit.inputs inputs with
  | error fault => simp [bind, Except.bind]
  | ok assignments => simp [bind, Except.bind]

/-- Vectors are accepted one after the other, with their outputs. -/
inductive Steps : Simulator → List InputVector → List OutputVector → Simulator → Prop where
  | nil (sim : Simulator) : Steps sim [] [] sim
  | cons {sim next last : Simulator} {inputs : InputVector} {output : OutputVector}
      {vectors : List InputVector} {outputs : List OutputVector}
      (first : sim.step inputs = .ok (output, next)) (rest : Steps next vectors outputs last) :
      Steps sim (inputs :: vectors) (output :: outputs) last

theorem Steps.circuit_eq (h : Steps sim vectors outputs last) : last.circuit = sim.circuit := by
  induction h with
  | nil sim => rfl
  | cons first _ ih =>
      obtain ⟨-, -, -, hcircuit, -⟩ := step_eq_ok first
      exact ih.trans hcircuit

/-- A run gives outputs when all vectors are accepted. -/
theorem run_eq_ok_iff : sim.run vectors = (.ok outputs, last) ↔ Steps sim vectors outputs last := by
  induction vectors generalizing sim outputs with
  | nil =>
      constructor
      · intro h
        cases h
        exact .nil _
      · intro h
        cases h
        rfl
  | cons inputs rest ih =>
      constructor
      · intro h
        cases hstep : sim.step inputs with
        | error fault =>
            rw [run_cons_of_error hstep] at h
            cases h
        | ok result =>
            obtain ⟨output, next⟩ := result
            rw [run_cons_of_ok hstep] at h
            cases hrun : next.run rest with
            | mk later final =>
                rw [hrun] at h
                cases later with
                | error fault => cases h
                | ok later =>
                    cases h
                    exact .cons hstep (ih.1 hrun)
      · intro h
        cases h with
        | cons first later =>
            rw [run_cons_of_ok first, ih.2 later]
            rfl

/-- A run stops at the first vector that is refused, in the state to which the vectors before it lead. -/
theorem run_eq_error_iff : sim.run vectors = (.error fault, last) ↔
    ∃ before refused after outputs, vectors = before ++ refused :: after ∧
      Steps sim before outputs last ∧ last.step refused = .error fault := by
  induction vectors generalizing sim with
  | nil =>
      constructor
      · intro h
        cases h
      · rintro ⟨before, refused, after, outputs, hvectors, -⟩
        cases before <;> cases hvectors
  | cons inputs rest ih =>
      constructor
      · intro h
        cases hstep : sim.step inputs with
        | error fault' =>
            rw [run_cons_of_error hstep] at h
            cases h
            exact ⟨[], inputs, rest, [], rfl, .nil _, hstep⟩
        | ok result =>
            obtain ⟨output, next⟩ := result
            rw [run_cons_of_ok hstep] at h
            have hrest : next.run rest = (.error fault, last) := by
              cases hrun : next.run rest with
              | mk later final =>
                  rw [hrun] at h
                  cases later with
                  | error fault' =>
                      cases h
                      rfl
                  | ok later => cases h
            obtain ⟨before, refused, after, outputs, rfl, hsteps, hrefused⟩ := ih.1 hrest
            exact ⟨inputs :: before, refused, after, output :: outputs, rfl, .cons hstep hsteps, hrefused⟩
      · rintro ⟨before, refused, after, outputs, hvectors, hsteps, hrefused⟩
        cases hsteps with
        | nil =>
            cases hvectors
            exact run_cons_of_error hrefused _
        | cons first later =>
            obtain ⟨rfl, rfl⟩ := List.cons.inj hvectors
            rw [run_cons_of_ok first, ih.2 ⟨_, refused, after, _, rfl, later, hrefused⟩]
            rfl

/-- What steps and runs answer, in every state of a simulation. A step is accepted exactly when the vector
    suits the input pins; any other vector is refused for the first fault in the fixed order, and nothing
    changes. A run gives the outputs of all its steps when all vectors are accepted, and else the fault of
    the first one refused, in the state to which exactly the vectors before it have led. -/
theorem steps_and_runs_answer (sim : Simulator) :
    (∀ inputs,
      ((∃ output next, (InPlace.step inputs).outcome sim = (.ok output, next)) ↔
        Suits sim.circuit.inputs inputs) ∧
      (∀ output next, (InPlace.step inputs).outcome sim = (.ok output, next) ↔
        sim.step inputs = .ok (output, next)) ∧
      (∀ fault left, (InPlace.step inputs).outcome sim = (.error fault, left) ↔
        Refuses sim.circuit.inputs inputs fault ∧ left = sim)) ∧
    (∀ vectors,
      (InPlace.run vectors).outcome sim = sim.run vectors ∧
      (∀ outputs last, sim.run vectors = (.ok outputs, last) ↔ sim.Steps vectors outputs last) ∧
      (∀ fault last, sim.run vectors = (.error fault, last) ↔
        ∃ before refused after outputs, vectors = before ++ refused :: after ∧
          sim.Steps before outputs last ∧ Refuses sim.circuit.inputs refused fault)) := by
  refine ⟨fun inputs => ⟨?_, ?_, ?_⟩, fun vectors => ⟨InPlace.outcome_run vectors sim, ?_, ?_⟩⟩
  · simp only [InPlace.outcome_step_eq_ok_iff]
    exact exists_step_iff
  · intro output next
    exact InPlace.outcome_step_eq_ok_iff
  · intro fault left
    rw [InPlace.outcome_step_eq_error_iff, step_eq_error_iff]
  · intro outputs last
    exact run_eq_ok_iff
  · intro fault last
    rw [run_eq_error_iff]
    constructor
    · rintro ⟨before, refused, after, outputs, hvectors, hsteps, hrefused⟩
      rw [step_eq_error_iff, hsteps.circuit_eq] at hrefused
      exact ⟨before, refused, after, outputs, hvectors, hsteps, hrefused⟩
    · rintro ⟨before, refused, after, outputs, hvectors, hsteps, hrefuses⟩
      rw [← hsteps.circuit_eq, ← step_eq_error_iff] at hrefuses
      exact ⟨before, refused, after, outputs, hvectors, hsteps, hrefuses⟩

end Simulator

end Netlist
