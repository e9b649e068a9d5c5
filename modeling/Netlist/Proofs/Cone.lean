/-
Module: Netlist.Proofs.Cone
Layer: Proofs
Purpose: What an output can depend on. The cone of a net holds the nets that can ever influence it: what
  its gate reads, what its register takes over, and what is written to the memory that it is read from. Two
  simulations that are given the same values at the input pins inside of the cone carry the same values on
  all of it, step after step, whatever they are given at the other pins.
Imports: Netlist.Proofs.Agreement
Main exports: Circuit.Closed, Circuit.Cone, Circuit.Cone.subset, NetTable.SameOn, Simulator.SameOn,
  Simulator.SameOn.step, Description.outputs_ignore_outside_cone
-/
import Netlist.Proofs.Agreement

namespace Netlist

/-!
### Closed sets of nets
-/

/-- A set of nets is closed when it holds everything that the nets in it are computed from. -/
structure Circuit.Closed (c : Circuit) (S : NetId → Prop) : Prop where
  /-- What the gate of a net in the set reads. -/
  operands : ∀ gate ∈ c.gates.toList, S gate.output → ∀ id ∈ gate.inputNets, S id
  /-- What the register of a net in the set takes over. -/
  next : ∀ r ∈ c.registers, S r.current → ∀ id, r.next = .net id → S id
  /-- What is written to a memory that a net in the set is read from. -/
  writes : ∀ gate ∈ c.gates.toList, S gate.output → ∀ b, gate.kind = .ramRead b →
    ∀ block, c.rams[b]? = some block →
      ∀ s ∈ [block.writeEnable, block.writeAddr, block.writeData], ∀ id, s = .net id → S id

/-- The cone of a net: the least closed set of nets that it is in. -/
inductive Circuit.Cone (c : Circuit) (root : NetId) : NetId → Prop where
  | root : Cone c root root
  | operand {gate : Gate} {id : NetId} (hgate : gate ∈ c.gates.toList)
      (houtput : Cone c root gate.output) (hid : id ∈ gate.inputNets) : Cone c root id
  | next {r : Register} {id : NetId} (hr : r ∈ c.registers) (hcurrent : Cone c root r.current)
      (hid : r.next = .net id) : Cone c root id
  | write {gate : Gate} {b : Nat} {block : RamBlock} {s : Source} {id : NetId}
      (hgate : gate ∈ c.gates.toList) (houtput : Cone c root gate.output)
      (hkind : gate.kind = .ramRead b) (hblock : c.rams[b]? = some block)
      (hs : s ∈ [block.writeEnable, block.writeAddr, block.writeData]) (hid : s = .net id) :
      Cone c root id

namespace Circuit

variable {c : Circuit} {root : NetId}

theorem closed_cone (c : Circuit) (root : NetId) : c.Closed (c.Cone root) where
  operands := fun _ hgate houtput _ hid => .operand hgate houtput hid
  next := fun _ hr hcurrent _ hid => .next hr hcurrent hid
  writes := fun _ hgate houtput _ hkind _ hblock _ hs _ hid =>
    .write hgate houtput hkind hblock hs hid

/-- A closed set that has a net has its whole cone. -/
theorem Cone.subset {S : NetId → Prop} (hclosed : c.Closed S) (hroot : S root) {id : NetId}
    (h : c.Cone root id) : S id := by
  induction h with
  | root => exact hroot
  | operand hgate _ hid ih => exact hclosed.operands _ hgate ih _ hid
  | next hr _ hid ih => exact hclosed.next _ hr ih _ hid
  | write hgate _ hkind hblock hs hid ih => exact hclosed.writes _ hgate ih _ hkind _ hblock _ hs _ hid

/-- Whether a source is a constant or one of the given nets. -/
def within (nets : List NetId) (s : Source) : Bool :=
  s.net?.all nets.contains

/-- Tests whether a list of nets is closed. -/
def isClosed (c : Circuit) (nets : List NetId) : Bool :=
  c.gates.toList.all (fun gate => !nets.contains gate.output ||
    (gate.inputs.all (within nets) &&
      match gate.kind with
      | .ramRead b => c.rams[b]?.all (fun block =>
          [block.writeEnable, block.writeAddr, block.writeData].all (within nets))
      | _ => true)) &&
  c.registers.all (fun r => !nets.contains r.current || within nets r.next)

theorem mem_of_within {nets : List NetId} {id : NetId} (h : within nets (.net id) = true) :
    id ∈ nets := by
  simpa [within, Source.net?] using h

theorem closed_of_isClosed {nets : List NetId} (h : c.isClosed nets = true) :
    c.Closed (· ∈ nets) := by
  simp only [isClosed, Bool.and_eq_true, List.all_eq_true, Bool.or_eq_true, Bool.not_eq_true',
    List.contains_eq_mem, decide_eq_false_iff_not] at h
  rcases h with ⟨hgates, hregisters⟩
  constructor
  case operands =>
    intro gate hgate houtput id hid
    rcases List.mem_filterMap.1 hid with ⟨s, hs, hnet⟩
    have hwithin := ((hgates gate hgate).resolve_left (not_not_intro houtput)).1 s hs
    cases s with
    | const value => cases hnet
    | net other =>
        cases hnet
        exact mem_of_within hwithin
  case next =>
    intro r hr hcurrent id hid
    have hwithin := (hregisters r hr).resolve_left (not_not_intro hcurrent)
    rw [hid] at hwithin
    exact mem_of_within hwithin
  case writes =>
    intro gate hgate houtput b hkind block hblock s hs id hid
    have hports := ((hgates gate hgate).resolve_left (not_not_intro houtput)).2
    simp only [hkind, hblock, Option.all_some, List.all_eq_true] at hports
    have hwithin := hports s hs
    rw [hid] at hwithin
    exact mem_of_within hwithin

end Circuit

/-!
### Tables that carry the same values on a set
-/

/-- Two tables of nets carry the same values on a set of nets. -/
structure NetTable.SameOn (S : NetId → Prop) (nets nets' : NetTable) : Prop where
  size_eq : nets.size = nets'.size
  value_eq : ∀ id, S id → NetTable.value nets id = NetTable.value nets' id

/-- A gate that reads memory depends on the block that it reads only. -/
theorem Gate.eval_congr_memories {gate : Gate} {memories memories' : Memories} (nets : NetTable)
    (hrom : memories.rom = memories'.rom)
    (hram : ∀ b, gate.kind = .ramRead b → ∀ a, memories.ram b a = memories'.ram b a) :
    gate.eval nets memories = gate.eval nets memories' := by
  unfold Gate.eval
  cases hkind : gate.kind with
  | romRead block => simp only [hrom]
  | ramRead block => simp only [hram block hkind]
  | _ => rfl

namespace NetTable.SameOn

variable {S : NetId → Prop} {nets nets' : NetTable}

theorem read_eq (h : SameOn S nets nets') {s : Source} (hs : ∀ id, s = .net id → S id) :
    s.read nets = s.read nets' := by
  apply Source.read_congr
  intro id hid
  exact h.value_eq id (hs id hid)

/-- Tables stay the same on a set when a net takes new words, which are equal if the net is in the set. -/
theorem assign (h : SameOn S nets nets') {id : NetId} {v v' : Word} (hv : S id → v = v') :
    SameOn S (NetTable.assign nets id v) (NetTable.assign nets' id v') := by
  constructor
  · simp [h.size_eq]
  · intro other hother
    by_cases hid : other = id
    · cases hid
      cases hv hother
      by_cases hlt : id.index < nets.size
      · rw [NetTable.value_assign_self v hlt, NetTable.value_assign_self v (h.size_eq ▸ hlt)]
      · -- a net outside of the tables keeps reading as zero
        have hlt' : ¬ id.index < nets'.size := h.size_eq ▸ hlt
        simp [NetTable.value, NetTable.assign, hlt, hlt']
    · rw [NetTable.value_assign_of_ne v hid, NetTable.value_assign_of_ne v' hid]
      exact h.value_eq other hother

/-- The same for many nets, one after the other. -/
theorem assignAll {α β : Type} {target : α → NetId} {target' : β → NetId} {word : α → Word}
    {word' : β → Word} {entries : List α} {entries' : List β} (h : SameOn S nets nets')
    (hentries : List.Forall₂ (fun a b => target a = target' b ∧ (S (target a) → word a = word' b))
      entries entries') :
    SameOn S (NetTable.assignAll target word entries nets)
      (NetTable.assignAll target' word' entries' nets') := by
  induction hentries generalizing nets nets' with
  | nil => exact h
  | @cons a b _ _ hab _ ih =>
      apply ih
      show SameOn S (NetTable.assign nets (target a) (word a))
        (NetTable.assign nets' (target' b) (word' b))
      rw [← hab.1]
      exact h.assign hab.2

/-- Settling keeps two tables the same on a closed set, if the memories that are read there are the same. -/
theorem settleNets {c : Circuit} (hclosed : c.Closed S) {memories memories' : Memories}
    (hrom : memories.rom = memories'.rom)
    (hram : ∀ gate ∈ c.gates.toList, S gate.output → ∀ b, gate.kind = .ramRead b →
      ∀ a, memories.ram b a = memories'.ram b a)
    (h : SameOn S nets nets') :
    SameOn S (State.settleNets c memories nets) (State.settleNets c memories' nets') := by
  unfold State.settleNets
  generalize c.schedule = order
  induction order generalizing nets nets' with
  | nil => exact h
  | cons g rest ih =>
      apply ih
      unfold State.settleGate
      cases hget : c.gates[g]? with
      | none => exact h
      | some gate =>
          have hgate : gate ∈ c.gates.toList := Array.mem_toList_iff.2 (Array.mem_of_getElem? hget)
          apply h.assign
          intro houtput
          calc gate.eval nets memories
              = gate.eval nets' memories :=
                Gate.eval_congr memories
                  (fun id hid => h.value_eq id (hclosed.operands gate hgate houtput id hid))
            _ = gate.eval nets' memories' :=
                Gate.eval_congr_memories nets' hrom (hram gate hgate houtput)

end NetTable.SameOn

/-!
### Simulations
-/

/-- Vectors that are accepted and agree on the pins of a set give its nets the same words. -/
theorem Accepts.same {S : NetId → Prop} {vector vector' : InputVector} {pins : List Pin}
    {assignments assignments' : List (NetId × Word)} (h : Accepts vector pins assignments)
    (h' : Accepts vector' pins assignments')
    (hsame : ∀ pin ∈ pins, S pin.net → vector.get? pin.name = vector'.get? pin.name) :
    List.Forall₂ (fun a b => a.1 = b.1 ∧ (S a.1 → a.2 = b.2)) assignments assignments' := by
  induction h generalizing assignments' with
  | nil =>
      cases h'
      exact .nil
  | cons hpin _ ih =>
      cases h' with
      | cons hpin' hrest' =>
          refine .cons ⟨hpin.1.trans hpin'.1.symm, ?_⟩
            (ih hrest' (fun pin hmem => hsame pin (List.mem_cons_of_mem _ hmem)))
          intro hnet
          have hget := hsame _ List.mem_cons_self (hpin.1 ▸ hnet)
          rw [hpin.2.1, hpin'.2.1] at hget
          exact Option.some.inj hget

/-- Two simulations of a circuit carry the same values on a set of nets and on the memories that these are
    read from. -/
structure Simulator.SameOn (S : NetId → Prop) (sim sim' : Simulator) : Prop where
  circuit_eq : sim'.circuit = sim.circuit
  rom_eq : sim'.rom = sim.rom
  nets : NetTable.SameOn S sim.state.nets sim'.state.nets
  rams : ∀ gate ∈ sim.circuit.gates.toList, S gate.output → ∀ b, gate.kind = .ramRead b →
    ∀ a, sim.state.ram.read b a = sim'.state.ram.read b a

namespace Simulator.SameOn

variable {S : NetId → Prop} {sim sim' next next' : Simulator} {vector vector' : InputVector}
  {output output' : OutputVector}

/-- The settled nets of a step are the same on a closed set, if the inputs are. -/
theorem settled (h : SameOn S sim sim') (hclosed : sim.circuit.Closed S)
    {assignments assignments' : List (NetId × Word)}
    (hsame : List.Forall₂ (fun a b => a.1 = b.1 ∧ (S a.1 → a.2 = b.2)) assignments assignments') :
    NetTable.SameOn S (sim.settled assignments) (sim'.settled assignments') := by
  unfold Simulator.settled
  rw [h.circuit_eq, h.rom_eq]
  exact (h.nets.assignAll hsame).settleNets hclosed rfl h.rams

/-- Registers take the same values, where it matters. -/
theorem committed {c : Circuit} {nets nets' : NetTable} (hclosed : c.Closed S)
    (h : NetTable.SameOn S nets nets') :
    NetTable.SameOn S (Simulator.committed c nets) (Simulator.committed c nets') := by
  apply h.assignAll
  apply List.forall₂_same.2
  intro r hr
  refine ⟨rfl, ?_⟩
  intro hcurrent
  rw [h.read_eq (hclosed.next r hr hcurrent)]

/-- Memories that are read in the set are written alike. -/
theorem written {c : Circuit} {nets nets' : NetTable} {ram ram' : RamStore} (hclosed : c.Closed S)
    (hram : ram.Fits c.rams) (hram' : ram'.Fits c.rams) (h : NetTable.SameOn S nets nets') {gate : Gate}
    (hgate : gate ∈ c.gates.toList) (houtput : S gate.output) {b : Nat}
    (hkind : gate.kind = .ramRead b) {block : RamBlock} (hblock : c.rams[b]? = some block) {a : Word}
    (hread : ram.read b a = ram'.read b a) :
    (Simulator.written c nets ram).read b a = (Simulator.written c nets' ram').read b a := by
  have hport : ∀ s ∈ [block.writeEnable, block.writeAddr, block.writeData],
      s.read nets = s.read nets' :=
    fun s hs => h.read_eq (hclosed.writes gate hgate houtput b hkind block hblock s hs)
  unfold Simulator.written
  rw [State.read_foldl_writes hram.hasRoom hblock, State.read_foldl_writes hram'.hasRoom hblock, hread,
    hport block.writeEnable (by simp), hport block.writeAddr (by simp), hport block.writeData (by simp)]

/-- Accepted steps on vectors that agree on the pins of a closed set keep two simulations the same there,
    and give the same values at its output pins. -/
theorem step (h : SameOn S sim sim') (hsound : sim.circuit.Sound) (hclosed : sim.circuit.Closed S)
    (hram : sim.state.ram.Fits sim.circuit.rams) (hram' : sim'.state.ram.Fits sim.circuit.rams)
    (hok : sim.step vector = .ok (output, next)) (hok' : sim'.step vector' = .ok (output', next'))
    (hsame : ∀ pin ∈ sim.circuit.inputs, S pin.net → vector.get? pin.name = vector'.get? pin.name) :
    SameOn S next next' ∧ ∃ nets nets', NetTable.SameOn S nets nets' ∧
      output = outputs sim.circuit nets ∧ output' = outputs sim.circuit nets' := by
  obtain ⟨assignments, haccepts, houtput, hcircuit, hrom, hnets, hwrites⟩ := step_eq_ok hok
  obtain ⟨assignments', haccepts', houtput', hcircuit', hrom', hnets', hwrites'⟩ := step_eq_ok hok'
  rw [h.circuit_eq] at haccepts' houtput' hcircuit' hnets' hwrites'
  have hsettled := h.settled hclosed (haccepts.same haccepts' hsame)
  refine ⟨?_, _, _, hsettled, houtput, houtput'⟩
  constructor
  case circuit_eq => rw [hcircuit, hcircuit']
  case rom_eq => rw [hrom, hrom', h.rom_eq]
  case nets =>
    rw [hnets, hnets']
    exact committed hclosed hsettled
  case rams =>
    intro gate hgate hin b hkind a
    rw [hcircuit] at hgate
    rw [hwrites, hwrites']
    have hlt : b < sim.circuit.rams.length := by
      have hbounded := (hsound.gates_inRange gate hgate).bounded
      rw [hkind] at hbounded
      exact hbounded
    exact written hclosed hram hram' hsettled hgate hin hkind (List.getElem?_eq_getElem hlt)
      (h.rams gate hgate hin b hkind a)

end Simulator.SameOn

/-!
### Runs
-/

/-- A run that is accepted to its end accepts its first step and then runs on. -/
theorem Simulator.run_cons_eq_ok {sim : Simulator} {vector : InputVector} {rest : List InputVector}
    {results : List OutputVector} (h : (sim.run (vector :: rest)).1 = .ok results) :
    ∃ output next later, sim.step vector = .ok (output, next) ∧ (next.run rest).1 = .ok later ∧
      results = output :: later := by
  cases hok : sim.step vector with
  | error fault =>
      rw [run_cons_of_error hok] at h
      cases h
  | ok result =>
      rcases result with ⟨output, next⟩
      rw [run_cons_of_ok hok] at h
      cases hlater : (next.run rest).1 with
      | error fault =>
          rw [hlater] at h
          cases h
      | ok later =>
          rw [hlater] at h
          cases h
          exact ⟨output, next, later, rfl, hlater, rfl⟩

/-- An output vector has the value of the net of each pin, if no two pins have one name. -/
theorem Simulator.get?_outputs {c : Circuit} (hnames : (c.outputs.map Pin.name).Nodup) {pin : Pin}
    (hpin : pin ∈ c.outputs) (nets : NetTable) :
    (outputs c nets).get? pin.name = some (NetTable.value nets pin.net) := by
  have hfind : ∀ {pins : List Pin}, (pins.map Pin.name).Nodup → pin ∈ pins →
      (pins.map (fun p => (p.name, NetTable.value nets p.net))).find? (fun e => e.1 == pin.name) =
        some (pin.name, NetTable.value nets pin.net) := by
    intro pins hnodup hmem
    induction pins with
    | nil => cases hmem
    | cons first rest ih =>
        rw [List.map_cons, List.nodup_cons] at hnodup
        rcases List.mem_cons.1 hmem with rfl | hmem
        · simp
        · have hne : first.name ≠ pin.name := fun heq => hnodup.1 (heq ▸ List.mem_map_of_mem hmem)
          rw [List.map_cons, List.find?_cons_of_neg (by simpa using hne)]
          exact ih hnodup.2 hmem
  unfold OutputVector.get? outputs
  rw [hfind hnames hpin]
  rfl

namespace Description

variable {d : Description} {limit : Nat} {sim sim' : Simulator}

theorem Simulated.outputNames_nodup (h : d.Simulated limit sim) :
    (sim.circuit.outputs.map Pin.name).Nodup := by
  obtain ⟨inputs, outputs, parts, schedule, hchecked, -, hfits⟩ := h
  rw [hfits.circuit_eq]
  exact Scope.pinNames_eq hchecked.outputs_attached ▸ hchecked.outputs_nodup

theorem Simulated.sound (h : d.Simulated limit sim) : sim.circuit.Sound := by
  obtain ⟨inputs, outputs, parts, schedule, hchecked, hschedule, hfits⟩ := h
  rw [hfits.circuit_eq]
  exact hchecked.sound hschedule

theorem Simulated.ram_fits (h : d.Simulated limit sim) : sim.state.ram.Fits sim.circuit.rams := by
  obtain ⟨inputs, outputs, parts, schedule, -, -, hfits⟩ := h
  rw [hfits.circuit_eq]
  exact hfits.ram_fits

/-- Runs on vectors that agree on the pins of a closed set give the same values at its output pins. -/
theorem run_sameOn {c : Circuit} {S : NetId → Prop} (hclosed : c.Closed S) {o : Pin}
    (ho : o ∈ c.outputs) (hroot : S o.net) (hcircuit : sim.circuit = c)
    (hsim : d.Simulated limit sim) (hsim' : d.Simulated limit sim') (h : Simulator.SameOn S sim sim')
    {vectors vectors' : List InputVector}
    (hsame : List.Forall₂ (fun vector vector' => ∀ pin ∈ c.inputs, S pin.net →
      vector.get? pin.name = vector'.get? pin.name) vectors vectors')
    {results results' : List OutputVector} (hrun : (sim.run vectors).1 = .ok results)
    (hrun' : (sim'.run vectors').1 = .ok results') :
    ∃ values : List Word, values.length = vectors.length ∧
      results.map (fun output => output.get? o.name) = values.map some ∧
      results'.map (fun output => output.get? o.name) = values.map some := by
  induction hsame generalizing sim sim' results results' with
  | nil =>
      cases hrun
      cases hrun'
      exact ⟨[], rfl, rfl, rfl⟩
  | cons hvector _ ih =>
      obtain ⟨output, next, later, hok, hlater, rfl⟩ := Simulator.run_cons_eq_ok hrun
      obtain ⟨output', next', later', hok', hlater', rfl⟩ := Simulator.run_cons_eq_ok hrun'
      subst hcircuit
      obtain ⟨hnext, nets, nets', hnets, rfl, rfl⟩ := h.step hsim.sound hclosed hsim.ram_fits
        (h.circuit_eq ▸ hsim'.ram_fits) hok hok' hvector
      have hcircuit : next.circuit = sim.circuit := by
        obtain ⟨-, -, -, hcircuit, -⟩ := Simulator.step_eq_ok hok
        exact hcircuit
      obtain ⟨values, hlength, hvalues, hvalues'⟩ :=
        ih hcircuit (hsim.step hok).1 (hsim'.step hok').1 hnext hlater hlater'
      have hget := Simulator.get?_outputs hsim.outputNames_nodup ho
      refine ⟨NetTable.value nets o.net :: values, by simp [hlength], ?_, ?_⟩
      · simp only [List.map_cons, hget, hvalues]
      · simp only [List.map_cons, hget, hvalues', hnets.value_eq _ hroot]

/-- An output does not depend on what happens outside of its cone. Two simulations of a compiled
    description with the same ROM contents that start at power-on, and accept vectors which agree at each
    step on the input pins inside of the cone of an output pin, give this pin the same value at each
    step. -/
theorem outputs_ignore_outside_cone {d : Description} {config : Config} {c : Circuit}
    (h : d.compile config = .ok c) (rom : RomStore) (settings settings' : Config) {o : Pin}
    (ho : o ∈ c.outputs) {vectors vectors' : List InputVector}
    (hsame : List.Forall₂ (fun vector vector' => ∀ pin ∈ c.inputs, c.Cone o.net pin.net →
      vector.get? pin.name = vector'.get? pin.name) vectors vectors')
    {results results' : List OutputVector}
    (hrun : ((Simulator.create c rom settings).run vectors).1 = .ok results)
    (hrun' : ((Simulator.create c rom settings').run vectors').1 = .ok results') :
    ∃ values : List Word, values.length = vectors.length ∧
      results.map (fun output => output.get? o.name) = values.map some ∧
      results'.map (fun output => output.get? o.name) = values.map some := by
  have hfresh : Simulator.SameOn (c.Cone o.net) (Simulator.create c rom settings)
      (Simulator.create c rom settings') :=
    ⟨rfl, rfl, ⟨rfl, fun _ _ => rfl⟩, fun _ _ _ _ _ _ => rfl⟩
  exact run_sameOn (Circuit.closed_cone c o.net) ho .root rfl (simulated_calls h rom settings []).1
    (simulated_calls h rom settings' []).1 hfresh hsame hrun hrun'

/-- A memory that one input writes and reads at a held address, beside a register that mixes both
    inputs. -/
def lanes : Description where
  name := "lanes"
  inputs := ["left", "right"]
  outputs := ["cell", "mixed"]
  nets := [⟨"left", 1⟩, ⟨"right", 1⟩, ⟨"held", 1⟩, ⟨"cell", 1⟩, ⟨"both", 1⟩, ⟨"mixed", 1⟩]
  equations := [
    { target := "held", op := .reg, args := [.net "left"] },
    { target := "cell", op := .ram,
      args := [.net "held", .const 1 none, .net "left", .net "held"], params := [1, 1] },
    { target := "both", op := .xor, args := [.net "cell", .net "right"] },
    { target := "mixed", op := .reg, args := [.net "both"] }]

/-- Three steps of the lanes with the given words at the right input. -/
def laneVectors (words : List Word) : List InputVector :=
  List.zipWith (fun left right => .ofList [("left", left), ("right", right)]) [1, 1, 0] words

/-- The memory of the lanes gives the same values in two runs that differ at the right input in every
    step. The register beside it does not. -/
theorem lanes_ignore_right : ∃ c, lanes.compile .standard = .ok c ∧ ∃ o ∈ c.outputs, o.name = "cell" ∧
    let sim := Simulator.create c (RomStore.ofCircuit c .standard) .standard
    ∃ results results', (sim.run (laneVectors [0, 1, 0])).1 = .ok results ∧
      (sim.run (laneVectors [1, 0, 1])).1 = .ok results' ∧ results ≠ results' ∧
      ∃ values : List Word, values.length = 3 ∧
        results.map (fun output => output.get? o.name) = values.map some ∧
        results'.map (fun output => output.get? o.name) = values.map some := by
  obtain ⟨c, hc⟩ := exists_eq_ok_of_isOk (x := lanes.compile .standard) (by decide +kernel)
  have hlanes : (match lanes.compile .standard with
      | .ok c =>
        let sim := Simulator.create c (RomStore.ofCircuit c .standard) .standard
        let cone : List NetId := [⟨0⟩, ⟨2⟩, ⟨3⟩]
        decide (⟨"cell", ⟨3⟩, 1⟩ ∈ c.outputs) && c.isClosed cone &&
          decide (List.Forall₂ (fun vector vector' => ∀ pin ∈ c.inputs, pin.net ∈ cone →
            vector.get? pin.name = vector'.get? pin.name)
            (laneVectors [0, 1, 0]) (laneVectors [1, 0, 1])) &&
          (sim.run (laneVectors [0, 1, 0])).1.isOk && (sim.run (laneVectors [1, 0, 1])).1.isOk &&
          decide ((sim.run (laneVectors [0, 1, 0])).1.toOption ≠
            (sim.run (laneVectors [1, 0, 1])).1.toOption)
      | .error _ => false) = true := by
    decide +kernel
  rw [hc] at hlanes
  simp only [Bool.and_eq_true, decide_eq_true_iff] at hlanes
  obtain ⟨⟨⟨⟨⟨hcell, hclosed⟩, hsame⟩, hleft⟩, hright⟩, hdiffer⟩ := hlanes
  obtain ⟨results, hresults⟩ := exists_eq_ok_of_isOk hleft
  obtain ⟨results', hresults'⟩ := exists_eq_ok_of_isOk hright
  have hcone : ∀ {id : NetId}, c.Cone ⟨3⟩ id → id ∈ ([⟨0⟩, ⟨2⟩, ⟨3⟩] : List NetId) :=
    fun h => h.subset (Circuit.closed_of_isClosed hclosed) (by decide)
  have hagree := hsame.imp (fun _ _ hvector pin hpin hin => hvector pin hpin (hcone hin))
  refine ⟨c, hc, ⟨"cell", ⟨3⟩, 1⟩, hcell, rfl, results, results', hresults, hresults', ?_,
    outputs_ignore_outside_cone hc _ _ _ hcell hagree hresults hresults'⟩
  rintro rfl
  rw [hresults, hresults'] at hdiffer
  exact hdiffer rfl

end Description

end Netlist
