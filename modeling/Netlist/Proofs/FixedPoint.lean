/-
Module: Netlist.Proofs.FixedPoint
Layer: Proofs
Purpose: Settling as a fixed point. A table of nets is at rest when the output of every gate holds the value
  of the gate on the table itself. One pass over the gates of a sound circuit reaches such a table, and along
  the schedule the values of the nets that no gate drives determine all others, so there is no second one.
  From this follow that settling a settled table changes nothing, that what gates drove before does not
  matter, and that every other order which puts producers first leads to the same table.
Imports: Netlist.Proofs.Settle, Netlist.Proofs.WellFormed
Main exports: NetTable.eq_of_value_eq, State.AtRest, State.atRest_settleNets, State.AtRest.value_congr,
  Circuit.ProducersFirst, Circuit.Sound.reschedule, Description.settleNets_unique_at_rest
-/
import Netlist.Proofs.Settle
import Netlist.Proofs.WellFormed

namespace Netlist

/-- Tables of one size that give every net the same value are equal, as long as every position has an
    identifier. -/
theorem NetTable.eq_of_value_eq {nets nets' : NetTable} (hsize : nets.size = nets'.size)
    (hle : nets.size ≤ UInt32.size)
    (h : ∀ id, NetTable.value nets id = NetTable.value nets' id) : nets = nets' := by
  apply Array.ext hsize
  intro i hi hi'
  have hindex : (NetId.ofIndex i).index = i := NetId.index_ofIndex (lt_of_lt_of_le hi hle)
  have hvalue := h (NetId.ofIndex i)
  simpa [NetTable.value, hindex, hi, hi'] using hvalue

namespace State

variable {c : Circuit} {memories : Memories} {nets other rest rest' : NetTable}

/-!
### Tables at rest
-/

/-- A table at rest over another: it differs from it in outputs of gates at most, and the output of every
    gate holds the value of the gate on the table itself. -/
structure AtRest (c : Circuit) (memories : Memories) (nets rest : NetTable) : Prop where
  size_eq : rest.size = nets.size
  /-- Nets that no gate drives are as they were. -/
  kept : ∀ id, id ∉ c.gates.toList.map Gate.output → NetTable.value rest id = NetTable.value nets id
  /-- No gate would change its output. -/
  value_eq : ∀ gate ∈ c.gates.toList, NetTable.value rest gate.output = gate.eval rest memories

/-- Two tables at rest agree on the outputs of the gates in every front part of the schedule, if the tables
    below them agree on the nets that no gate drives. -/
theorem AtRest.outputs_congr (hsound : c.Sound) (h : AtRest c memories nets rest)
    (h' : AtRest c memories other rest')
    (hsame : ∀ id, id ∉ c.gates.toList.map Gate.output →
      NetTable.value nets id = NetTable.value other id)
    {done left : List Nat} (hsplit : c.schedule = done ++ left) :
    ∀ g ∈ done, ∀ gate, c.gates[g]? = some gate →
      NetTable.value rest gate.output = NetTable.value rest' gate.output := by
  -- the last gate of the front part reads nets that no gate drives and outputs of earlier gates
  induction done using List.reverseRecOn generalizing left with
  | nil =>
      intro g hg
      cases hg
  | append_singleton done last ih =>
      have hlast : c.schedule = done ++ last :: left := by simpa using hsplit
      intro g hg gate hgate
      rcases List.mem_append.1 hg with hmem | hmem
      · exact ih hlast g hmem gate hgate
      · cases List.mem_singleton.1 hmem
        have hlisted : gate ∈ c.gates.toList := Array.mem_toList_iff.2 (Array.mem_of_getElem? hgate)
        rw [h.value_eq gate hlisted, h'.value_eq gate hlisted]
        apply Gate.eval_congr
        intro id hid
        by_cases hdriven : id ∈ c.gates.toList.map Gate.output
        · rcases List.mem_map.1 hdriven with ⟨source, hsource, rfl⟩
          rcases List.mem_iff_getElem?.1 hsource with ⟨k, hk⟩
          rw [Array.getElem?_toList] at hk
          have hearlier : k ∈ done := mem_before hsound hlast hgate hk hid
          exact ih hlast k hearlier source hk
        · rw [h.kept id hdriven, h'.kept id hdriven, hsame id hdriven]

/-- The nets that no gate drives determine a table at rest. -/
theorem AtRest.value_congr (hsound : c.Sound) (h : AtRest c memories nets rest)
    (h' : AtRest c memories other rest')
    (hsame : ∀ id, id ∉ c.gates.toList.map Gate.output →
      NetTable.value nets id = NetTable.value other id) (id : NetId) :
    NetTable.value rest id = NetTable.value rest' id := by
  by_cases hdriven : id ∈ c.gates.toList.map Gate.output
  · rcases List.mem_map.1 hdriven with ⟨gate, hgate, rfl⟩
    rcases List.mem_iff_getElem?.1 hgate with ⟨g, hg⟩
    rw [Array.getElem?_toList] at hg
    have hscheduled : g ∈ c.schedule := by
      rw [hsound.schedule_perm.mem_iff, List.mem_range]
      exact (Array.getElem?_eq_some_iff.1 hg).1
    exact h.outputs_congr hsound h' hsame (List.append_nil _).symm g hscheduled gate hg
  · rw [h.kept id hdriven, h'.kept id hdriven, hsame id hdriven]

/-- One pass over the gates reaches a table at rest. -/
theorem atRest_settleNets (hsound : c.Sound) (hsize : nets.size = c.nets.size) :
    AtRest c memories nets (settleNets c memories nets) where
  size_eq := size_settleNets c memories nets
  kept := fun _ hid => value_settleNets_of_not_output hsound hsize hid
  value_eq := fun _ hgate => value_settleNets_output hsound hsize hgate

/-- Tables at rest over tables that agree on the nets that no gate drives are equal. -/
theorem AtRest.unique (hsound : c.Sound) (hsize : nets.size = c.nets.size)
    (hother : other.size = c.nets.size)
    (hsame : ∀ id, id ∉ c.gates.toList.map Gate.output →
      NetTable.value nets id = NetTable.value other id)
    (h : AtRest c memories nets rest) (h' : AtRest c memories other rest') : rest = rest' := by
  have hrest : rest.size = c.nets.size := h.size_eq.trans hsize
  have hrest' : rest'.size = c.nets.size := h'.size_eq.trans hother
  apply NetTable.eq_of_value_eq (hrest.trans hrest'.symm)
  · rw [hrest]
    exact hsound.size_le
  · exact h.value_congr hsound h' hsame

end State

/-!
### Other orders
-/

/-- An order of all gates in which every gate comes after the gates whose outputs it reads. -/
def Circuit.ProducersFirst (c : Circuit) (order : List Nat) : Prop :=
  order.Perm (List.range c.gates.size) ∧
    ∀ consumer ∈ c.gates.toList.zipIdx, ∀ producer ∈ c.gates.toList.zipIdx,
      producer.1.output ∈ consumer.1.inputNets → order.idxOf producer.2 < order.idxOf consumer.2

instance (c : Circuit) (order : List Nat) : Decidable (c.ProducersFirst order) :=
  inferInstanceAs (Decidable (_ ∧ _))

/-- A sound circuit stays sound with every other order that puts producers first. -/
theorem Circuit.Sound.reschedule {c : Circuit} (hsound : c.Sound) {order : List Nat}
    (h : c.ProducersFirst order) : ({ c with schedule := order } : Circuit).Sound := by
  have hordered :
      (Dependencies.ofGates c.gates (producers c.nets.size c.gates)).Ordered order := by
    apply Dependencies.ordered_of_idxOf_lt (h.1.nodup_iff.2 List.nodup_range)
    intro source gate hfeeds
    rcases (Dependencies.feeds_ofGates_iff (State.outputs_nodup hsound)
      (fun _ hmem _ hid => State.inputNets_lt hsound hmem hid)).1 hfeeds with
      ⟨consumer, producer, hconsumer, hproducer, hreads⟩
    have hlisted : ∀ {k : Nat} {g : Gate}, c.gates[k]? = some g → (g, k) ∈ c.gates.toList.zipIdx := by
      intro k g hk
      rw [List.mem_zipIdx_iff_getElem?, Array.getElem?_toList]
      exact hk
    exact h.2 _ (hlisted hconsumer) _ (hlisted hproducer) hreads
  have hgates : ∀ gate ∈ c.gates.toList, gate.InRange { c with schedule := order } := by
    intro gate hgate
    rcases hsound.gates_inRange gate hgate with ⟨houtput, hinputs, harity, hbounded⟩
    exact ⟨houtput, hinputs, harity, hbounded⟩
  exact ⟨hsound.size_le, hsound.inputs_lt, hsound.outputs_lt, hgates, hsound.registers_lt,
    hsound.registers_inRange, hsound.rams_inRange, h.1, hordered, hsound.driven⟩

namespace Description

open State (AtRest settleNets settleGate)

/-- One pass computes the only fixed point. In a compiled circuit, whatever words the nets carry and the
    memories hold, settling gives the one table that keeps every net which no gate drives and in which the
    output of every gate holds the value of the gate on the table itself. So settling once more changes
    nothing, what the outputs of gates carried before does not matter, and giving the gates their turns in
    any other order that puts producers first gives the same table. -/
theorem settleNets_unique_at_rest {d : Description} {config : Config} {c : Circuit}
    (h : d.compile config = .ok c) (memories : Memories) {nets : NetTable}
    (hsize : nets.size = c.nets.size) :
    (∀ rest, AtRest c memories nets rest ↔ rest = settleNets c memories nets) ∧
    settleNets c memories (settleNets c memories nets) = settleNets c memories nets ∧
    (∀ other : NetTable, other.size = c.nets.size →
      (∀ id, id ∉ c.gates.toList.map Gate.output →
        NetTable.value other id = NetTable.value nets id) →
      settleNets c memories other = settleNets c memories nets) ∧
    ∀ order, c.ProducersFirst order →
      order.foldl (settleGate c memories) nets = settleNets c memories nets := by
  have hsound := sound_of_compile h
  have hrest : AtRest c memories nets (settleNets c memories nets) :=
    State.atRest_settleNets hsound hsize
  have hindependent : ∀ other : NetTable, other.size = c.nets.size →
      (∀ id, id ∉ c.gates.toList.map Gate.output →
        NetTable.value other id = NetTable.value nets id) →
      settleNets c memories other = settleNets c memories nets := by
    intro other hother hsame
    exact AtRest.unique hsound hother hsize hsame (State.atRest_settleNets hsound hother) hrest
  refine ⟨?_, ?_, hindependent, ?_⟩
  · intro rest
    constructor
    · intro hfixed
      exact AtRest.unique hsound hsize hsize (fun _ _ => rfl) hfixed hrest
    · intro heq
      rw [heq]
      exact hrest
  · exact hindependent _ (hrest.size_eq.trans hsize) hrest.kept
  · intro order horder
    -- the turns in this order are the pass of the circuit with this order as its schedule
    have hother : AtRest { c with schedule := order } memories nets
        (order.foldl (settleGate c memories) nets) :=
      State.atRest_settleNets (hsound.reschedule horder) hsize
    have hother' : AtRest c memories nets (order.foldl (settleGate c memories) nets) :=
      ⟨hother.size_eq, hother.kept, hother.value_eq⟩
    exact AtRest.unique hsound hsize hsize (fun _ _ => rfl) hother' hrest

/-- The nets of the keeper, all with words that are wider than they are. -/
def wideNets : NetTable :=
  Array.replicate 7 0xFFFFFFFFFFFFFFF5

/-- Memories that read the complement of the address, whatever the block. -/
def complements : Memories :=
  ⟨fun _ address => ~~~address, fun _ address => ~~~address⟩

/-- The keeper settles wide words into the same table in another order than its own, and nothing changes
    when it settles again. -/
theorem settleNets_unique_at_rest_keeper : ∃ c, keeper.compile .standard = .ok c ∧
    wideNets.size = c.nets.size ∧ c.schedule ≠ [1, 4, 2, 3, 0] ∧ c.ProducersFirst [1, 4, 2, 3, 0] ∧
    AtRest c complements wideNets (settleNets c complements wideNets) ∧
    settleNets c complements wideNets ≠ wideNets ∧
    settleNets c complements (settleNets c complements wideNets) =
      settleNets c complements wideNets ∧
    [1, 4, 2, 3, 0].foldl (settleGate c complements) wideNets = settleNets c complements wideNets := by
  obtain ⟨c, hc⟩ := exists_eq_ok_of_isOk (x := keeper.compile .standard) (by decide +kernel)
  have hkeeper : (match keeper.compile .standard with
      | .ok c =>
        decide (wideNets.size = c.nets.size) && decide (c.schedule ≠ [1, 4, 2, 3, 0]) &&
          decide (c.ProducersFirst [1, 4, 2, 3, 0]) &&
          decide (settleNets c complements wideNets ≠ wideNets)
      | .error _ => false) = true := by
    decide +kernel
  rw [hc] at hkeeper
  simp only [Bool.and_eq_true, decide_eq_true_iff] at hkeeper
  obtain ⟨⟨⟨hsize, hdiffer⟩, horder⟩, hchange⟩ := hkeeper
  obtain ⟨hunique, hagain, -, horders⟩ := settleNets_unique_at_rest hc complements hsize
  exact ⟨c, hc, hsize, hdiffer, horder, (hunique _).2 rfl, hchange, hagain, horders _ horder⟩

end Description

end Netlist
