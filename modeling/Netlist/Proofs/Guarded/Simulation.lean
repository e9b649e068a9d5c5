/-
Module: Netlist.Proofs.Guarded.Simulation
Layer: Proofs
Purpose: Simulating with guarded accesses. Nets are read and written by position, operands of gates and
  gates of the schedule are taken by position, and gates shift. In a sound circuit with a net table of the
  right size nothing of this fails, and every call keeps the size of the table; so no call of any sequence
  fails, and neither does looking at nets or taking a snapshot in between.
Imports: Netlist.Proofs.Calls, Netlist.Proofs.Guarded.Compile, Netlist.Proofs.Settle,
  Netlist.Proofs.WellFormed
Main exports: Guarded.eval, Guarded.step, Guarded.run, Guarded.calls, Guarded.peek, Guarded.snapshot,
  Guarded.eval_eq_some, Guarded.step_eq_safe, Guarded.calls_eq_some,
  Description.compile_and_calls_never_fail
-/
import Netlist.Proofs.Calls
import Netlist.Proofs.Guarded.Compile
import Netlist.Proofs.Settle
import Netlist.Proofs.WellFormed

namespace Netlist

namespace Guarded

/-!
### Gates
-/

def read (nets : NetTable) : Source → Option Word
  | .net id => nets[id.index]?
  | .const value => some value

/-- The value of the operand of a gate at a position. -/
def operand (g : Gate) (nets : NetTable) (i : Nat) : Option Word := do
  let source ← g.inputs[i]?
  read nets source

def eval (g : Gate) (nets : NetTable) (memories : Memories) : Option Word := do
  let mask ← mask g.width
  match g.kind with
  | .copy => operand g nets 0
  | .not =>
    let a ← operand g nets 0
    some (~~~a &&& mask)
  | .and =>
    let a ← operand g nets 0
    let b ← operand g nets 1
    some (a &&& b)
  | .or =>
    let a ← operand g nets 0
    let b ← operand g nets 1
    some (a ||| b)
  | .xor =>
    let a ← operand g nets 0
    let b ← operand g nets 1
    some (a ^^^ b)
  | .nand =>
    let a ← operand g nets 0
    let b ← operand g nets 1
    some (~~~(a &&& b) &&& mask)
  | .nxor =>
    let a ← operand g nets 0
    let b ← operand g nets 1
    some (~~~(a ^^^ b) &&& mask)
  | .mux =>
    let sel ← operand g nets 0
    if sel = 0 then operand g nets 1 else operand g nets 2
  | .concat lowWidth =>
    let hi ← operand g nets 0
    let high ← shiftLeft hi lowWidth
    let lo ← operand g nets 1
    some ((high ||| lo) &&& mask)
  | .bits low =>
    let a ← operand g nets 0
    bits a low g.width
  | .romRead block =>
    let addr ← operand g nets 0
    some (memories.rom block addr &&& mask)
  | .ramRead block =>
    let addr ← operand g nets 0
    some (memories.ram block addr &&& mask)

/-!
### Steps
-/

def assign (nets : NetTable) (id : NetId) (value : Word) : Option NetTable :=
  store nets id.index value

/-- The net table after one gate has had its turn. -/
def settleGate (c : Circuit) (memories : Memories) (nets : NetTable) (index : Nat) :
    Option NetTable := do
  let gate ← c.gates[index]?
  let value ← eval gate nets memories
  assign nets gate.output value

/-- Evaluates every gate once, in schedule order, and counts them. -/
def settle (c : Circuit) (rom : RomStore) (s : State) : Option (State × Nat) := do
  let nets ← c.schedule.foldlM (settleGate c (State.memories rom s.ram)) s.nets
  some ({ s with nets }, c.schedule.length)

def outputs (c : Circuit) (nets : NetTable) : Option OutputVector := do
  let values ← c.outputs.mapM (fun pin => do
    let value ← nets[pin.net.index]?
    some (pin.name, value))
  some ⟨values⟩

def nextValue (nets : NetTable) (r : Register) : Option Word := do
  let next ← read nets r.next
  let mask ← mask r.width
  some (next &&& mask)

/-- The write that the nets ask a RAM block for. -/
def writeRequest (nets : NetTable) (block : Nat) (ram : RamBlock) : Option (Option RamWrite) := do
  let enable ← read nets ram.writeEnable
  if enable = 0 then some none
  else
    let addr ← read nets ram.writeAddr
    let addrMask ← mask ram.addrWidth
    let data ← read nets ram.writeData
    let dataMask ← mask ram.wordWidth
    some (some { block, address := addr &&& addrMask, data := data &&& dataMask })

/-- The updates that the nets ask for. -/
def updates (c : Circuit) (nets : NetTable) : Option Pending := do
  let registers ← c.registers.mapM (nextValue nets)
  let writes ← c.rams.zipIdx.mapM (fun e => writeRequest nets e.2 e.1)
  some { registers, writes := writes.filterMap id }

def commit (c : Circuit) (s : State) : Option (State × CommitCount) := do
  let nets ← (c.registers.zip s.pending.registers).foldlM
    (fun nets e => assign nets e.1.current e.2) s.nets
  let ram := s.pending.writes.foldl (fun ram w => ram.write w.block w.address w.data) s.ram
  some ({ nets, ram }, ⟨s.pending.registers.length, s.pending.writes.length⟩)

/-- Puts every register back to its power-on value. -/
def resetRegisters (c : Circuit) (s : State) : Option State := do
  let nets ← c.registers.foldlM (fun nets r => assign nets r.current r.init) s.nets
  some { s with nets, pending := {} }

/-- Matches an input vector against pins. -/
def matchInputs (pins : List Pin) (inputs : InputVector) :
    ExceptT StepError Option (List (NetId × Word)) :=
  match pins.find? (fun pin => (inputs.get? pin.name).isNone) with
  | some pin => throw (.missingInput pin.name)
  | none =>
    match inputs.entries.find? (fun e => !pins.any (fun pin => pin.name == e.1)) with
    | some e => throw (.unknownInput e.1)
    | none =>
      pins.mapM (fun pin => do
        let value := (inputs.get? pin.name).getD 0
        if ← fits value pin.width then return (pin.net, value)
        else throw (.valueOutOfRange pin.name value pin.width))

/-!
### Calls
-/

/-- The cells of a block, all zero. -/
def blankCells (addrWidth : Nat) : Option Cells :=
  if addrWidth ≤ Cells.denseLimit then do
    let count ← addressSpace addrWidth
    some (.dense (Array.replicate count 0))
  else some (.sparse .empty)

/-- The state in which every net and every cell is zero, registers included. -/
def blank (c : Circuit) : Option State := do
  let blocks ← c.rams.mapM (fun block => blankCells block.addrWidth)
  some { nets := Array.replicate c.nets.size 0, ram := ⟨blocks.toArray⟩ }

def create (c : Circuit) (rom : RomStore) (config : Config) : Option Simulator := do
  let cleared ← blank c
  let state ← resetRegisters c cleared
  some ⟨c, rom, state, {}, config.traceSteps, config.collectStats⟩

/-- What a step does with inputs that have been accepted. -/
def advance (sim : Simulator) (assignments : List (NetId × Word)) :
    Option (OutputVector × Simulator) := do
  let driven ← assignments.foldlM (fun nets a => assign nets a.1 a.2) sim.state.nets
  let (settled, evaluated) ← settle sim.circuit sim.rom { sim.state with nets := driven }
  let output ← outputs sim.circuit settled.nets
  let pending ← updates sim.circuit settled.nets
  let (state, committed) ← commit sim.circuit { settled with pending }
  some (output, { sim with state, stats := sim.count evaluated committed })

def step (sim : Simulator) (inputs : InputVector) :
    ExceptT StepError Option (OutputVector × Simulator) := do
  let assignments ← matchInputs sim.circuit.inputs inputs
  advance sim assignments

/-- Runs one step for each vector up to the first that is refused. -/
def run (sim : Simulator) :
    List InputVector → Option (Except StepError (List OutputVector) × Simulator)
  | [] => some (.ok [], sim)
  | inputs :: rest => do
    let outcome ← (step sim inputs).run
    match outcome with
    | .error fault => some (.error fault, sim)
    | .ok (output, sim) =>
      let (later, sim) ← run sim rest
      match later with
      | .ok later => some (.ok (output :: later), sim)
      | .error fault => some (.error fault, sim)

def reset (sim : Simulator) : Option Simulator := do
  let state ← resetRegisters sim.circuit
    { sim.state with nets := Array.replicate sim.state.nets.size 0, ram := sim.state.ram.clear }
  some { sim with state }

/-- The value of a net after the last step, if there is a net of this name. -/
def peek (sim : Simulator) (net : String) : Option (Option Word) :=
  match sim.circuit.net? net with
  | some id => do
    let value ← sim.state.nets[id.index]?
    some (some value)
  | none => some none

def snapshot (sim : Simulator) : Option Snapshot := do
  let registers ← sim.circuit.registers.mapM (fun r => do
    let net ← sim.circuit.nets[r.current.index]?
    let value ← sim.state.nets[r.current.index]?
    some (net.name, value))
  some { registers, rams := sim.circuit.rams.zipIdx.map (fun e => (e.1.name, sim.state.ram.nonZero e.2)) }

/-- What a call leaves of a simulation. -/
def call (sim : Simulator) : Call → Option Simulator
  | .step inputs => do
    let outcome ← (step sim inputs).run
    match outcome with
    | .ok (_, sim) => some sim
    | .error _ => some sim
  | .run vectors => do
    let (_, sim) ← run sim vectors
    some sim
  | .reset => reset sim

/-- What a sequence of calls leaves of a simulation. -/
def calls (sim : Simulator) (sequence : List Call) : Option Simulator :=
  sequence.foldlM call sim

/-!
### Agreement on gates
-/

section Gate

variable {nets : NetTable}

theorem getElem?_net {id : NetId} (h : id.index < nets.size) :
    nets[id.index]? = some (NetTable.value nets id) :=
  getElem?_eq_some_getD h 0

theorem read_eq_some {s : Source} (h : s.InRange nets.size) : read nets s = some (s.read nets) := by
  cases s with
  | net id => exact getElem?_net (h id rfl)
  | const value => rfl

theorem operand_eq_some {g : Gate} {i : Nat} (hinputs : ∀ s ∈ g.inputs, s.InRange nets.size)
    (hi : i < g.inputs.length) : operand g nets i = some (g.operand nets i) := by
  have hget : g.inputs[i]? = some g.inputs[i] := List.getElem?_eq_getElem hi
  rw [operand, Gate.operand, bind_eq hget, hget]
  exact read_eq_some (hinputs _ (List.getElem_mem hi))

/-- A gate of a sound circuit has all the operands that it reads, and shifts by less than a word. -/
theorem eval_eq_some {c : Circuit} {g : Gate} (h : g.InRange c) (hsize : nets.size = c.nets.size)
    (memories : Memories) : eval g nets memories = some (g.eval nets memories) := by
  have harg : ∀ i < g.kind.arity, operand g nets i = some (g.operand nets i) := by
    intro i hi
    apply operand_eq_some
    · rw [hsize]
      exact h.inputs_inRange
    · rw [h.arity]
      exact hi
  have hbounded := h.bounded
  rw [eval, Gate.eval, bind_eq (mask_eq_some g.width)]
  cases hkind : g.kind with
  | copy =>
      simp only [hkind, GateKind.arity] at harg
      exact harg 0 (by decide)
  | not =>
      simp only [hkind, GateKind.arity] at harg
      simp only [bind_eq (harg 0 (by decide))]
  | and | or | xor | nand | nxor =>
      simp only [hkind, GateKind.arity] at harg
      simp only [bind_eq (harg 0 (by decide)), bind_eq (harg 1 (by decide))]
  | mux =>
      simp only [hkind, GateKind.arity] at harg
      simp only [bind_eq (harg 0 (by decide)), harg 1 (by decide), harg 2 (by decide)]
      split <;> rfl
  | concat lowWidth =>
      simp only [hkind, GateKind.arity] at harg
      rw [hkind] at hbounded
      simp only [bind_eq (harg 0 (by decide)), bind_eq (harg 1 (by decide)),
        bind_eq (shiftLeft_eq_some _ hbounded)]
  | bits low =>
      simp only [hkind, GateKind.arity] at harg
      simp only [bind_eq (harg 0 (by decide)), bits_eq_some]
  | romRead block | ramRead block =>
      simp only [hkind, GateKind.arity] at harg
      simp only [bind_eq (harg 0 (by decide))]

/-- A multiplexer that has lost an operand fails when it selects that operand. -/
example (memories : Memories) :
    eval ⟨.mux, [.const 1, .const 0], ⟨0⟩, 1⟩ #[] memories = none := rfl

/-- A concatenation fails when the shift is as wide as a word. -/
example (memories : Memories) :
    eval ⟨.concat 64, [.const 1, .const 0], ⟨0⟩, 64⟩ #[] memories = none := rfl

end Gate

/-!
### Agreement on steps
-/

section Step

variable {c : Circuit} (hsound : c.Sound) {nets : NetTable}

theorem foldlM_assign_eq_some {α : Type} {target : α → NetId} {word : α → Word} {entries : List α}
    (h : ∀ a ∈ entries, (target a).index < nets.size) :
    entries.foldlM (fun nets a => assign nets (target a) (word a)) nets =
      some (NetTable.assignAll target word entries nets) := by
  apply foldlM_eq_some_of_size
  · exact fun nets a => NetTable.size_assign nets (target a) (word a)
  · intro nets' hnets' a ha
    apply store_eq_some
    rw [hnets']
    exact h a ha

include hsound

/-- Every position of the schedule is a gate, whose turn changes a net of the table. -/
theorem foldlM_settleGate_eq_some (memories : Memories) (hsize : nets.size = c.nets.size) :
    c.schedule.foldlM (settleGate c memories) nets = some (State.settleNets c memories nets) := by
  apply foldlM_eq_some_of_size
  · exact State.size_settleGate c memories
  · intro nets' hnets' g hg
    have hlt : g < c.gates.size := List.mem_range.1 (hsound.schedule_perm.mem_iff.1 hg)
    have hget : c.gates[g]? = some c.gates[g] := Array.getElem?_eq_getElem hlt
    have hgate : Gate.InRange c c.gates[g] :=
      hsound.gates_inRange _ (Array.mem_toList_iff.2 (Array.mem_of_getElem? hget))
    have hnets : nets'.size = c.nets.size := hnets'.trans hsize
    rw [settleGate, State.settleGate, bind_eq hget, bind_eq (eval_eq_some hgate hnets memories), hget]
    apply store_eq_some
    rw [hnets]
    exact hgate.output_lt

theorem settle_eq_some (rom : RomStore) {s : State} (hsize : s.nets.size = c.nets.size) :
    settle c rom s = some (s.settle c rom) := by
  rw [settle, bind_eq (foldlM_settleGate_eq_some hsound _ hsize)]
  rfl

variable (hsize : nets.size = c.nets.size)

include hsize

theorem outputs_eq_some : outputs c nets = some (Simulator.outputs c nets) := by
  have hvalues : c.outputs.mapM (fun pin => do
      let value ← nets[pin.net.index]?
      some (pin.name, value)) =
        some (c.outputs.map (fun pin => (pin.name, NetTable.value nets pin.net))) := by
    apply mapM_eq_some
    intro pin hpin
    have hlt : pin.net.index < nets.size := by
      rw [hsize]
      exact hsound.outputs_lt pin hpin
    rw [bind_eq (getElem?_net hlt)]
  rw [outputs, bind_eq hvalues]
  rfl

theorem nextValue_eq_some {r : Register} (hr : r ∈ c.registers) :
    nextValue nets r = some (r.next.read nets &&& Word.mask r.width) := by
  have hread : read nets r.next = some (r.next.read nets) := by
    apply read_eq_some
    rw [hsize]
    exact hsound.registers_inRange r hr
  rw [nextValue, bind_eq hread, bind_eq (mask_eq_some r.width)]

theorem writeRequest_eq_some (block : Nat) {ram : RamBlock} (hram : ram ∈ c.rams) :
    writeRequest nets block ram = some (State.writeRequest? nets block ram) := by
  obtain ⟨henable, haddr, hdata⟩ := hsound.rams_inRange ram hram
  rw [← hsize] at henable haddr hdata
  rw [writeRequest, State.writeRequest?, bind_eq (read_eq_some henable)]
  split
  · rfl
  · rw [bind_eq (read_eq_some haddr), bind_eq (mask_eq_some _), bind_eq (read_eq_some hdata),
      bind_eq (mask_eq_some _)]

theorem updates_eq_some : updates c nets = some (State.updates c nets) := by
  have hregisters : c.registers.mapM (nextValue nets) =
      some (c.registers.map (fun r => r.next.read nets &&& Word.mask r.width)) :=
    mapM_eq_some (fun r hr => nextValue_eq_some hsound hsize hr)
  have hwrites : c.rams.zipIdx.mapM (fun e => writeRequest nets e.2 e.1) =
      some (c.rams.zipIdx.map (fun e => State.writeRequest? nets e.2 e.1)) := by
    apply mapM_eq_some
    rintro ⟨ram, block⟩ hmem
    exact writeRequest_eq_some hsound hsize block (List.fst_mem_of_mem_zipIdx hmem)
  rw [updates, bind_eq hregisters, bind_eq hwrites, List.filterMap_map]
  rfl

end Step

section State

variable {c : Circuit} (hsound : c.Sound) {s : State} (hsize : s.nets.size = c.nets.size)

include hsound hsize

theorem commit_eq_some : commit c s = some (s.commit c) := by
  have hlt : ∀ e ∈ c.registers.zip s.pending.registers, e.1.current.index < s.nets.size := by
    intro e he
    rw [hsize]
    exact hsound.registers_lt e.1 (List.of_mem_zip he).1
  rw [commit, bind_eq (foldlM_assign_eq_some hlt)]
  rfl

theorem resetRegisters_eq_some : resetRegisters c s = some (s.resetRegisters c) := by
  have hlt : ∀ r ∈ c.registers, r.current.index < s.nets.size := by
    intro r hr
    rw [hsize]
    exact hsound.registers_lt r hr
  rw [resetRegisters, bind_eq (foldlM_assign_eq_some hlt)]
  rfl

end State

theorem matchInputs_eq_safe (pins : List Pin) (inputs : InputVector) :
    matchInputs pins inputs = safe (Netlist.matchInputs pins inputs) := by
  rw [matchInputs, Netlist.matchInputs]
  cases pins.find? (fun pin => (inputs.get? pin.name).isNone) with
  | some pin => rfl
  | none =>
      cases inputs.entries.find? (fun e => !pins.any (fun pin => pin.name == e.1)) with
      | some e => rfl
      | none =>
          apply mapM_eq_safe
          intro pin _
          simp only
          generalize (inputs.get? pin.name).getD 0 = value
          rw [lift_bind (fits_eq_some value pin.width)]
          cases Word.fits value pin.width <;> rfl

end Guarded

/-!
### Agreement on calls
-/

/-- A simulation of a circuit, with a net table of the right size. -/
structure Simulator.Simulates (sim : Simulator) (c : Circuit) : Prop where
  circuit_eq : sim.circuit = c
  size_eq : sim.state.nets.size = c.nets.size

namespace Simulator

variable {c : Circuit} {sim sim' : Simulator}

theorem simulates_create (c : Circuit) (rom : RomStore) (config : Config) :
    (create c rom config).Simulates c := by
  refine ⟨rfl, ?_⟩
  exact (NetTable.size_assignAll Register.current Register.init c.registers _).trans
    Array.size_replicate

/-- An accepted step keeps the circuit and the size of the table. -/
theorem Simulates.step (h : sim.Simulates c) {inputs : InputVector} {output : OutputVector}
    (hok : sim.step inputs = .ok (output, sim')) : sim'.Simulates c := by
  obtain ⟨assignments, -, -, hcircuit, -, hnets, -⟩ := step_eq_ok hok
  refine ⟨hcircuit.trans h.circuit_eq, ?_⟩
  rw [hnets, committed, NetTable.size_assignAll, settled, State.size_settleNets,
    NetTable.size_assignAll, h.size_eq]

theorem Simulates.reset (h : sim.Simulates c) : sim.reset.Simulates c := by
  refine ⟨h.circuit_eq, ?_⟩
  refine (NetTable.size_assignAll Register.current Register.init sim.circuit.registers _).trans ?_
  rw [Array.size_replicate, h.size_eq]

theorem Simulates.calls (h : sim.Simulates c) (sequence : List Call) :
    (sim.calls sequence).Simulates c :=
  calls_invariant (P := fun sim => sim.Simulates c) (fun _ _ _ _ h hok => h.step hok)
    (fun _ h => h.reset) h

end Simulator

namespace Guarded

theorem findNet?_lt {nets : Array NetInfo} {name : String} {id : NetId}
    (hsize : nets.size ≤ UInt32.size) (hfind : findNet? nets name = some id) :
    id.index < nets.size := by
  obtain ⟨i, hi, rfl⟩ := Option.map_eq_some_iff.1 hfind
  obtain ⟨hlt, -⟩ := Array.findIdx?_eq_some_iff_getElem.1 hi
  rw [NetId.index_ofIndex (Nat.lt_of_lt_of_le hlt hsize)]
  exact hlt

theorem blankCells_eq_some (addrWidth : Nat) :
    blankCells addrWidth = some (Cells.blank addrWidth) := by
  rw [blankCells, Cells.blank]
  split
  · rw [bind_eq (addressSpace_eq_some addrWidth)]
  · rfl

theorem blank_eq_some (c : Circuit) : blank c = some (State.blank c) := by
  rw [blank, bind_eq (mapM_eq_some (fun block _ => blankCells_eq_some block.addrWidth))]
  rfl

section Calls

variable {c : Circuit} (hsound : c.Sound) {sim : Simulator}

include hsound

theorem create_eq_some (rom : RomStore) (config : Config) :
    create c rom config = some (.create c rom config) := by
  rw [create, bind_eq (blank_eq_some c), bind_eq (resetRegisters_eq_some hsound Array.size_replicate)]
  rfl

variable (h : sim.Simulates c)

include h

theorem reset_eq_some : reset sim = some sim.reset := by
  have hcircuit := h.circuit_eq
  subst hcircuit
  have hsize : (Array.replicate sim.state.nets.size (0 : Word)).size = sim.circuit.nets.size := by
    rw [Array.size_replicate, h.size_eq]
  rw [reset, bind_eq (resetRegisters_eq_some hsound hsize)]
  rfl

/-- Driving, settling, reading the outputs, sampling and committing stay in the table. -/
theorem advance_eq_some {assignments : List (NetId × Word)}
    (hlt : ∀ a ∈ assignments, a.1.index < c.nets.size) :
    advance sim assignments =
      (let (settled, evaluated) := (sim.state.drive assignments).settle sim.circuit sim.rom
      let (state, committed) := (settled.sample sim.circuit).commit sim.circuit
      some (Simulator.outputs sim.circuit settled.nets,
        { sim with state, stats := sim.count evaluated committed })) := by
  obtain ⟨rfl, hsize⟩ := h
  have hdriven : (sim.state.drive assignments).nets.size = sim.circuit.nets.size :=
    (NetTable.size_assignAll Prod.fst Prod.snd assignments sim.state.nets).trans hsize
  have hsettled : ((sim.state.drive assignments).settle sim.circuit sim.rom).1.nets.size =
      sim.circuit.nets.size :=
    (State.size_settleNets _ _ _).trans hdriven
  have hsampled : (((sim.state.drive assignments).settle sim.circuit sim.rom).1.sample
      sim.circuit).nets.size = sim.circuit.nets.size := hsettled
  rw [← hsize] at hlt
  rw [advance, bind_eq (foldlM_assign_eq_some hlt)]
  apply (bind_eq (settle_eq_some hsound sim.rom hdriven) _).trans
  apply (bind_eq (outputs_eq_some hsound hsettled) _).trans
  apply (bind_eq (updates_eq_some hsound hsettled) _).trans
  apply (bind_eq (commit_eq_some hsound hsampled) _).trans
  rfl

theorem step_eq_safe (inputs : InputVector) : step sim inputs = safe (sim.step inputs) := by
  rw [step, matchInputs_eq_safe]
  apply safe_bind_eq
  intro assignments hmatch
  have hlt : ∀ a ∈ assignments, a.1.index < c.nets.size := by
    intro a ha
    obtain ⟨pin, hpin, hnet, -⟩ := forall₂_mem_right (accepts_of_matchInputs hmatch) ha
    rw [h.circuit_eq] at hpin
    rw [hnet]
    exact hsound.inputs_lt pin hpin
  rw [advance_eq_some hsound h hlt]
  rfl

omit h in
theorem run_eq_some {sim : Simulator} (h : sim.Simulates c) (vectors : List InputVector) :
    run sim vectors = some (sim.run vectors) := by
  induction vectors generalizing sim with
  | nil => rfl
  | cons inputs rest ih =>
      rw [run, Simulator.run, step_eq_safe hsound h]
      cases hok : sim.step inputs with
      | error fault => rfl
      | ok result =>
          obtain ⟨output, next⟩ := result
          refine (bind_eq (ih (h.step hok)) _).trans ?_
          simp only
          cases next.run rest with
          | mk later final => cases later <;> rfl

theorem peek_eq_some (net : String) : peek sim net = some (sim.peek? net) := by
  obtain ⟨rfl, hsize⟩ := h
  rw [peek, Simulator.peek?]
  cases hfind : sim.circuit.net? net with
  | none => rfl
  | some id =>
      have hlt : id.index < sim.state.nets.size := by
        rw [hsize]
        exact findNet?_lt hsound.size_le hfind
      simp only
      rw [bind_eq (getElem?_net hlt)]
      rfl

theorem snapshot_eq_some : snapshot sim = some sim.snapshot := by
  obtain ⟨rfl, hsize⟩ := h
  have hregisters : sim.circuit.registers.mapM (fun r => do
      let net ← sim.circuit.nets[r.current.index]?
      let value ← sim.state.nets[r.current.index]?
      some (net.name, value)) = some (sim.circuit.registers.map
        (fun r => (sim.circuit.netName r.current, NetTable.value sim.state.nets r.current))) := by
    apply mapM_eq_some
    intro r hr
    have hlt := hsound.registers_lt r hr
    have hnet : sim.circuit.nets[r.current.index]? = some sim.circuit.nets[r.current.index] :=
      Array.getElem?_eq_getElem hlt
    rw [bind_eq hnet, bind_eq (getElem?_net (by rw [hsize]; exact hlt)), Circuit.netName, hnet]
  rw [snapshot, bind_eq hregisters]
  rfl

theorem call_eq_some (first : Call) : call sim first = some (sim.call first) := by
  cases first with
  | step inputs =>
      rw [call, Simulator.call, step_eq_safe hsound h]
      cases sim.step inputs with
      | error fault => rfl
      | ok result => rfl
  | run vectors =>
      rw [call, bind_eq (run_eq_some hsound h vectors)]
      rfl
  | reset => exact reset_eq_some hsound h

/-- No call of a sequence fails. -/
theorem calls_eq_some (sequence : List Call) : calls sim sequence = some (sim.calls sequence) := by
  apply foldlM_eq_some (fun _ sim => sim.Simulates c)
  · intro first rest sim hsim
    exact ⟨call_eq_some hsound hsim first, hsim.calls [first]⟩
  · exact h

end Calls

end Guarded

namespace Description

/-- Compilation and simulation stay within their tables. For every description of at most 2³² nets,
    compilation gives its result without leaving a table, without a sum or difference out of range, and a
    circuit that it gives is sound. On a simulation of the circuit every sequence of calls runs without
    leaving a table and without a shift by the width of a word or more, and so do, after the sequence, a
    step, a run, a reset, a look at a net and a snapshot. -/
theorem compile_and_calls_never_fail {d : Description} (config : Config)
    (hsize : d.nets.length ≤ UInt32.size) :
    Guarded.compile d config = Guarded.safe (d.compile config) ∧
    ∀ c, d.compile config = .ok c → c.Sound ∧ ∀ (rom : RomStore) (settings : Config),
      Guarded.create c rom settings = some (.create c rom settings) ∧ ∀ sequence : List Call,
        let sim := (Simulator.create c rom settings).calls sequence
        Guarded.calls (.create c rom settings) sequence = some sim ∧
        (∀ inputs, Guarded.step sim inputs = Guarded.safe (sim.step inputs)) ∧
        (∀ vectors, Guarded.run sim vectors = some (sim.run vectors)) ∧
        Guarded.reset sim = some sim.reset ∧
        (∀ net, Guarded.peek sim net = some (sim.peek? net)) ∧
        Guarded.snapshot sim = some sim.snapshot := by
  refine ⟨Guarded.compile_eq_safe config hsize, ?_⟩
  intro c hc
  have hsound := sound_of_compile hc
  refine ⟨hsound, ?_⟩
  intro rom settings
  have hcreate := Simulator.simulates_create c rom settings
  refine ⟨Guarded.create_eq_some hsound rom settings, ?_⟩
  intro sequence sim
  have hsim : sim.Simulates c := hcreate.calls sequence
  exact ⟨Guarded.calls_eq_some hsound hcreate sequence, Guarded.step_eq_safe hsound hsim,
    Guarded.run_eq_some hsound hsim, Guarded.reset_eq_some hsound hsim,
    Guarded.peek_eq_some hsound hsim, Guarded.snapshot_eq_some hsound hsim⟩

/-- The keeper compiles without a failing access, and so runs a sequence of calls of which some are
    refused. -/
theorem compile_and_calls_never_fail_keeper :
    keeper.nets.length ≤ UInt32.size ∧ ∃ c, Guarded.compile keeper .standard = Guarded.safe (.ok c) ∧
      c.Sound ∧ ∃ sim, Guarded.calls (.create c ⟨#[], 0, false, false⟩ .standard)
        [.step (.ofList [("set", 1)]), .step (.ofList [("set", 2)]), .reset,
          .run [.ofList [("set", 1)], .empty]] = some sim ∧
        Guarded.snapshot sim = some sim.snapshot := by
  have hsize : keeper.nets.length ≤ UInt32.size := by decide +kernel
  obtain ⟨c, hc⟩ := exists_eq_ok_of_isOk (x := keeper.compile .standard) (by decide +kernel)
  obtain ⟨hcompile, hcircuit⟩ := compile_and_calls_never_fail .standard hsize
  obtain ⟨hsound, hcalls⟩ := hcircuit c hc
  obtain ⟨hrun, -, -, -, -, hsnapshot⟩ := (hcalls ⟨#[], 0, false, false⟩ .standard).2
    [.step (.ofList [("set", 1)]), .step (.ofList [("set", 2)]), .reset,
      .run [.ofList [("set", 1)], .empty]]
  rw [hc] at hcompile
  exact ⟨hsize, c, hcompile, hsound, _, hrun, hsnapshot⟩

end Description

end Netlist
