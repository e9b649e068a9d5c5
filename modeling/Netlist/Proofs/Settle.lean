/-
Module: Netlist.Proofs.Settle
Layer: Proofs
Purpose: What settling does to the nets of a sound circuit. A gate depends on the nets that it reads and on
  nothing else, and no gate that has had its turn reads the output of a later one. So after all turns the
  output of every gate holds the value of the gate on the settled table itself, and every other net keeps
  the value that it had.
Imports: Netlist.Proofs.Representation, Netlist.Simulation.State
Main exports: Gate.eval_congr, State.Settled, State.settled_settleNets, State.value_settleNets_output,
  State.value_settleNets_of_not_output
-/
import Netlist.Proofs.Representation
import Netlist.Simulation.State

namespace Netlist

/-!
### What a gate depends on
-/

theorem Source.read_congr {s : Source} {nets nets' : NetTable}
    (h : ∀ id, s = .net id → NetTable.value nets id = NetTable.value nets' id) :
    s.read nets = s.read nets' := by
  cases s with
  | net id => exact h id rfl
  | const value => rfl

/-- The value of a gate depends on the values of the nets that it reads only. -/
theorem Gate.eval_congr {gate : Gate} {nets nets' : NetTable} (memories : Memories)
    (h : ∀ id ∈ gate.inputNets, NetTable.value nets id = NetTable.value nets' id) :
    gate.eval nets memories = gate.eval nets' memories := by
  have hoperand : gate.operand nets = gate.operand nets' := by
    funext i
    rw [Gate.operand, Gate.operand]
    cases hs : gate.inputs[i]? with
    | none => rfl
    | some s =>
        refine Source.read_congr (fun id hid => h id ?_)
        exact List.mem_filterMap.2 ⟨s, List.mem_of_getElem? hs, by rw [hid]; rfl⟩
  rw [Gate.eval, Gate.eval, hoperand]

namespace State

/-!
### Turns
-/

variable {c : Circuit} {memories : Memories} {nets nets' : NetTable} {done : List Nat}

/-- Where settling stands when the gates in `done` have had their turns, starting from `nets`. -/
structure Settled (c : Circuit) (memories : Memories) (nets : NetTable) (done : List Nat)
    (nets' : NetTable) : Prop where
  size_eq : nets'.size = nets.size
  /-- The output of every gate that had its turn holds its value. -/
  value_eq : ∀ g ∈ done, ∀ gate, c.gates[g]? = some gate →
    NetTable.value nets' gate.output = gate.eval nets' memories
  /-- The other nets have kept their values. -/
  kept : ∀ id, (∀ g ∈ done, ∀ gate, c.gates[g]? = some gate → gate.output ≠ id) →
    NetTable.value nets' id = NetTable.value nets id

theorem size_settleGate (c : Circuit) (memories : Memories) (nets : NetTable) (g : Nat) :
    (settleGate c memories nets g).size = nets.size := by
  rw [settleGate]
  split
  · exact NetTable.size_assign _ _ _
  · rfl

theorem size_settleNets (c : Circuit) (memories : Memories) (nets : NetTable) :
    (settleNets c memories nets).size = nets.size :=
  size_foldl (size_settleGate c memories) c.schedule nets

theorem settled_nil : Settled c memories nets [] nets :=
  ⟨rfl, by simp, fun _ _ => rfl⟩

/-- A turn settles one more gate, because no gate settled before reads its output. -/
theorem Settled.turn (h : Settled c memories nets done nets') {g : Nat} {gate : Gate}
    (hgate : c.gates[g]? = some gate) (hlt : gate.output.index < nets.size)
    (hother : ∀ g' ∈ done, ∀ other, c.gates[g']? = some other → other.output ≠ gate.output)
    (hunread : ∀ g' ∈ done ++ [g], ∀ other, c.gates[g']? = some other →
      gate.output ∉ other.inputNets) :
    Settled c memories nets (done ++ [g])
      (NetTable.assign nets' gate.output (gate.eval nets' memories)) := by
  have heval : ∀ g' ∈ done ++ [g], ∀ other, c.gates[g']? = some other →
      other.eval (NetTable.assign nets' gate.output (gate.eval nets' memories)) memories =
        other.eval nets' memories := by
    intro g' hg' other hget
    refine Gate.eval_congr memories (fun id hid => NetTable.value_assign_of_ne _ ?_)
    rintro rfl
    exact hunread g' hg' other hget hid
  refine ⟨by rw [NetTable.size_assign, h.size_eq], ?_, ?_⟩
  · intro g' hg' other hget
    rw [heval g' hg' other hget]
    rcases List.mem_append.1 hg' with hmem | hmem
    · rw [NetTable.value_assign_of_ne _ (hother g' hmem other hget), h.value_eq g' hmem other hget]
    · cases List.mem_singleton.1 hmem
      rw [hgate] at hget
      cases hget
      exact NetTable.value_assign_self _ (by rw [h.size_eq]; exact hlt)
  · intro id hid
    have hne : id ≠ gate.output := by
      rintro rfl
      exact hid g (by simp) gate hgate rfl
    rw [NetTable.value_assign_of_ne _ hne]
    exact h.kept id (fun g' hg' => hid g' (List.mem_append_left _ hg'))

/-!
### All turns of a sound circuit
-/

variable (hsound : c.Sound)

include hsound

/-- No net has two drivers. -/
theorem drivers_nodup : (c.inputs.map Pin.net ++
    (c.gates.toList.map Gate.output ++ c.registers.map Register.current)).Nodup :=
  hsound.driven.nodup (fun id hid => by
    rcases List.mem_append.1 hid with hid | hid
    · obtain ⟨pin, hpin, rfl⟩ := List.mem_map.1 hid
      exact hsound.inputs_lt pin hpin
    · rcases List.mem_append.1 hid with hid | hid
      · obtain ⟨gate, hgate, rfl⟩ := List.mem_map.1 hid
        exact (hsound.gates_inRange gate hgate).output_lt
      · obtain ⟨r, hr, rfl⟩ := List.mem_map.1 hid
        exact hsound.registers_lt r hr)

theorem outputs_nodup : (c.gates.toList.map Gate.output).Nodup :=
  (drivers_nodup hsound).of_append_right.of_append_left

theorem currents_nodup : (c.registers.map Register.current).Nodup :=
  (drivers_nodup hsound).of_append_right.of_append_right

/-- Gates with one output are one gate. -/
theorem gate_index_unique {g g' : Nat} {gate other : Gate} (hgate : c.gates[g]? = some gate)
    (hother : c.gates[g']? = some other) (hout : gate.output = other.output) : g = g' := by
  have hlt := (Array.getElem?_eq_some_iff.1 hgate).1
  refine (List.getElem?_inj (i := g) (by simpa using hlt) (outputs_nodup hsound)).1 ?_
  simp [hgate, hother, hout]

theorem inputNets_lt {gate : Gate} (hgate : gate ∈ c.gates.toList) {id : NetId}
    (hid : id ∈ gate.inputNets) : id.index < c.nets.size := by
  obtain ⟨s, hs, hnet⟩ := List.mem_filterMap.1 hid
  cases s with
  | const value => cases hnet
  | net other =>
      cases hnet
      exact (hsound.gates_inRange gate hgate).inputs_inRange _ hs _ rfl

/-- A gate that reads the output of another comes after it in the schedule. -/
theorem mem_before {before after : List Nat} {g source : Nat} {gate other : Gate}
    (hsplit : c.schedule = before ++ g :: after) (hgate : c.gates[g]? = some gate)
    (hother : c.gates[source]? = some other) (hreads : other.output ∈ gate.inputNets) :
    source ∈ before := by
  refine hsound.schedule_ordered before g after hsplit source ?_
  exact (Dependencies.feeds_ofGates_iff (outputs_nodup hsound)
    (fun _ hmem _ hid => inputNets_lt hsound hmem hid)).2 ⟨gate, other, hgate, hother, hreads⟩

theorem settled_foldl (hsize : nets.size = c.nets.size) {rest : List Nat}
    (hsplit : c.schedule = done ++ rest) (h : Settled c memories nets done nets') :
    Settled c memories nets c.schedule (rest.foldl (settleGate c memories) nets') := by
  induction rest generalizing done nets' with
  | nil => simpa [hsplit] using h
  | cons g rest ih =>
      have hnodup : (done ++ g :: rest).Nodup := by
        rw [← hsplit]
        exact hsound.schedule_perm.nodup_iff.2 List.nodup_range
      have hfresh : g ∉ done := fun hmem =>
        List.disjoint_of_nodup_append hnodup hmem List.mem_cons_self
      have hlt : g < c.gates.size := by
        have hmem : g ∈ c.schedule := by simp [hsplit]
        exact List.mem_range.1 (hsound.schedule_perm.mem_iff.1 hmem)
      have hgate : c.gates[g]? = some c.gates[g] := Array.getElem?_eq_getElem hlt
      have hnext : c.schedule = (done ++ [g]) ++ rest := by simp [hsplit]
      refine ih hnext ?_
      rw [settleGate, hgate]
      refine h.turn hgate ?_ ?_ ?_
      · rw [hsize]
        exact (hsound.gates_inRange _ (Array.getElem_mem_toList hlt)).output_lt
      · intro g' hg' other hother hout
        cases gate_index_unique hsound hother hgate hout
        exact hfresh hg'
      · -- a gate of `done`, or this one itself, reads gates of `done` only
        intro g' hg' other hother hreads
        rcases List.mem_append.1 hg' with hmem | hmem
        · obtain ⟨before, after, rfl⟩ := List.append_of_mem hmem
          have hearlier : c.schedule = before ++ g' :: (after ++ g :: rest) := by simp [hsplit]
          exact hfresh (List.mem_append_left _ (mem_before hsound hearlier hother hgate hreads))
        · cases List.mem_singleton.1 hmem
          exact hfresh (mem_before hsound hsplit hother hgate hreads)

theorem settled_settleNets (hsize : nets.size = c.nets.size) :
    Settled c memories nets c.schedule (settleNets c memories nets) :=
  settled_foldl hsound hsize rfl settled_nil

/-- On the settled nets, the output of every gate holds the value of the gate. -/
theorem value_settleNets_output (hsize : nets.size = c.nets.size) {gate : Gate}
    (hgate : gate ∈ c.gates.toList) :
    NetTable.value (settleNets c memories nets) gate.output =
      gate.eval (settleNets c memories nets) memories := by
  obtain ⟨g, hg⟩ := List.mem_iff_getElem?.1 hgate
  rw [Array.getElem?_toList] at hg
  have hmem : g ∈ c.schedule := by
    rw [hsound.schedule_perm.mem_iff, List.mem_range]
    exact (Array.getElem?_eq_some_iff.1 hg).1
  exact (settled_settleNets hsound hsize).value_eq g hmem gate hg

/-- Nets that no gate drives keep their values. -/
theorem value_settleNets_of_not_output (hsize : nets.size = c.nets.size) {id : NetId}
    (hid : id ∉ c.gates.toList.map Gate.output) :
    NetTable.value (settleNets c memories nets) id = NetTable.value nets id := by
  refine (settled_settleNets hsound hsize).kept id (fun g _ gate hg hout => hid ?_)
  exact List.mem_map.2 ⟨gate, Array.mem_toList_iff.2 (Array.mem_of_getElem? hg), hout⟩

end State

end Netlist
