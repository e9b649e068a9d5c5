/-
Module: Netlist.Proofs.Drivers
Layer: Proofs
Purpose: Drivers of nets. The check of drivers passes exactly when every position of the net table is
  driven once. Since a position is kept in 32 bits, a table that passes has at most 2³² nets. When no two
  gates drive one net, the table of producers names for each net the gate that drives it, and a gate
  depends on another exactly when it reads the net that the other one drives.
Imports: Mathlib.Data.List.Nodup, Netlist.Circuit.Compile, Netlist.Proofs.Schedule.Cycle
Main exports: DrivenOnce, checkDrivers_eq_ok_iff, DrivenOnce.size_le, DrivenOnce.nodup,
  producers_eq_some_iff, feeds_ofGates_iff, inRange_ofGates
-/
import Mathlib.Data.List.Nodup
import Netlist.Circuit.Compile
import Netlist.Proofs.Schedule.Cycle

namespace Netlist

/-!
### The count of drivers
-/

/-- Every one of `size` nets is driven exactly once. -/
def DrivenOnce (size : Nat) (driven : List NetId) : Prop :=
  ∀ i < size, (driven.map NetId.index).count i = 1

theorem getElem?_foldl_count (driven : List NetId) (counts : Array Nat) (i : Nat) :
    (driven.foldl (fun counts id => counts.modify id.index (· + 1)) counts)[i]? =
      counts[i]?.map (· + (driven.map NetId.index).count i) := by
  induction driven generalizing counts with
  | nil => simp
  | cons id rest ih =>
      rw [List.foldl_cons, ih, Array.getElem?_modify]
      by_cases h : id.index = i
      · subst h
        cases counts[id.index]? <;> simp; omega
      · simp [h]

/-- A position of the table of counts holds how often the position is driven. -/
theorem getElem?_driverCounts {size i : Nat} (driven : List NetId) (h : i < size) :
    (driverCounts size driven)[i]? = some ((driven.map NetId.index).count i) := by
  rw [driverCounts, getElem?_foldl_count]
  simp [h]

theorem size_driverCounts (size : Nat) (driven : List NetId) :
    (driverCounts size driven).size = size := by
  rw [driverCounts, size_foldl (fun _ _ => Array.size_modify), Array.size_replicate]

/-- The check of drivers passes exactly when every net of the table is driven once. -/
theorem checkDrivers_eq_ok_iff {nets : Array NetInfo} {driven : List NetId} {u : Unit} :
    checkDrivers nets driven = .ok u ↔ DrivenOnce nets.size driven := by
  -- the check looks for a first fault, so it passes when there is none
  have hnone : (nets.toList.zip (driverCounts nets.size driven).toList).find?
      (fun e => e.2 != 1) = none ↔ DrivenOnce nets.size driven := by
    rw [List.find?_eq_none]
    have hlength : (nets.toList.zip (driverCounts nets.size driven).toList).length = nets.size := by
      simp [size_driverCounts]
    constructor
    · intro h i hi
      have hmem := h _ (List.getElem_mem (n := i) (by rw [hlength]; exact hi))
      have hcount := getElem?_driverCounts driven hi
      rw [Array.getElem?_eq_some_iff] at hcount
      obtain ⟨_, hcount⟩ := hcount
      simpa [hcount] using hmem
    · intro h e he
      obtain ⟨i, hi, rfl⟩ := List.getElem_of_mem he
      rw [hlength] at hi
      have hcount := getElem?_driverCounts driven hi
      rw [Array.getElem?_eq_some_iff] at hcount
      obtain ⟨_, hcount⟩ := hcount
      simpa [hcount] using h i hi
  rw [checkDrivers, ← hnone]
  split
  · next h => simp [h]
  · next h => simp [h]
  · next h => simp [h]

namespace DrivenOnce

variable {size : Nat} {driven : List NetId}

theorem exists_mem (h : DrivenOnce size driven) {i : Nat} (hi : i < size) :
    ∃ id ∈ driven, id.index = i := by
  have hpos : 0 < (driven.map NetId.index).count i := by
    rw [h i hi]
    exact Nat.one_pos
  exact List.mem_map.1 (List.count_pos_iff.1 hpos)

/-- A position past 2³² could not be driven. -/
theorem size_le (h : DrivenOnce size driven) : size ≤ UInt32.size := by
  by_contra hlt
  obtain ⟨id, -, hid⟩ := h.exists_mem (i := UInt32.size) (by omega)
  have : id.index < UInt32.size := id.position.toNat_lt
  omega

/-- No net is driven twice. -/
theorem nodup (h : DrivenOnce size driven) (hrange : ∀ id ∈ driven, id.index < size) :
    driven.Nodup := by
  have hindex : (driven.map NetId.index).Nodup := by
    rw [List.nodup_iff_count_le_one]
    intro i
    by_cases hi : i < size
    · rw [h i hi]
    · rw [List.count_eq_zero.2]
      · exact Nat.zero_le 1
      · intro hmem
        obtain ⟨id, hid, rfl⟩ := List.mem_map.1 hmem
        exact hi (hrange id hid)
  exact hindex.of_map

/-- Whether nets are driven once does not depend on the order of the drivers. -/
theorem perm {other : List NetId} (hperm : driven.Perm other) :
    DrivenOnce size driven ↔ DrivenOnce size other := by
  simp only [DrivenOnce, (hperm.map NetId.index).count_eq]

end DrivenOnce

/-!
### Producers and dependencies
-/

theorem size_producers (size : Nat) (gates : Array Gate) : (producers size gates).size = size := by
  rw [producers, size_foldl (fun _ _ => Array.size_setIfInBounds), Array.size_replicate]

/-- What a table of producers says after more gates have been entered, no two of which drive one net:
    the gate that has been entered for a net, or else what it said before. -/
theorem getD_foldl_produce {entries : List (Gate × Nat)} (table : Array (Option Nat))
    (hnodup : (entries.map (fun e => e.1.output)).Nodup) {id : NetId} (hid : id.index < table.size)
    {g : Nat} :
    (entries.foldl (fun table e => table.setIfInBounds e.1.output.index (some e.2)) table).getD
        id.index none = some g ↔
      (∃ gate, (gate, g) ∈ entries ∧ gate.output = id) ∨
        (id ∉ entries.map (fun e => e.1.output) ∧ table.getD id.index none = some g) := by
  induction entries generalizing table with
  | nil => simp
  | cons e rest ih =>
      rw [List.map_cons, List.nodup_cons] at hnodup
      rw [List.foldl_cons, ih _ hnodup.2 (by simpa using hid)]
      by_cases h : e.1.output = id
      · subst h
        -- this gate drives the net, so no later one does
        have hlater : ∀ gate, ¬ ((gate, g) ∈ rest ∧ gate.output = e.1.output) := by
          rintro gate ⟨hmem, hout⟩
          exact hnodup.1 (hout ▸ List.mem_map.2 ⟨(gate, g), hmem, rfl⟩)
        have hget : (table.setIfInBounds e.1.output.index (some e.2)).getD e.1.output.index none =
            some e.2 := by
          simp [hid]
        simp only [hlater, exists_false, false_or, hget, Option.some.injEq, List.mem_cons,
          List.map_cons, not_true_eq_false, false_and, or_false, hnodup.1,
          not_false_eq_true, true_and]
        constructor
        · rintro rfl
          exact ⟨e.1, Or.inl rfl, rfl⟩
        · rintro ⟨gate, hmem | hmem, hout⟩
          · exact congrArg Prod.snd hmem.symm
          · exact absurd ⟨hmem, hout⟩ (hlater gate)
      · have hget : (table.setIfInBounds e.1.output.index (some e.2)).getD id.index none =
            table.getD id.index none := by
          have hne : e.1.output.index ≠ id.index := fun heq => h (NetId.index_inj.1 heq)
          simp [Array.getD_eq_getD_getElem?, hne]
        have hne : id ≠ e.1.output := fun heq => h heq.symm
        rw [hget, List.map_cons, List.mem_cons, not_or]
        simp only [List.mem_cons, hne, not_false_eq_true, true_and]
        constructor
        · rintro (⟨gate, hmem, hout⟩ | hold)
          · exact Or.inl ⟨gate, Or.inr hmem, hout⟩
          · exact Or.inr hold
        · rintro (⟨gate, rfl | hmem, hout⟩ | hold)
          · exact absurd hout h
          · exact Or.inl ⟨gate, hmem, hout⟩
          · exact Or.inr hold

/-- When no two gates drive one net, the producer of a net is the gate that drives it. -/
theorem producers_eq_some_iff {size : Nat} {gates : Array Gate}
    (hnodup : (gates.toList.map Gate.output).Nodup) {id : NetId} (hid : id.index < size) {g : Nat} :
    (producers size gates).getD id.index none = some g ↔
      ∃ gate, gates[g]? = some gate ∧ gate.output = id := by
  have hentries : (gates.toList.zipIdx.map (fun e => e.1.output)) =
      gates.toList.map Gate.output := by
    rw [← Function.comp_def Gate.output Prod.fst, ← List.map_map, List.zipIdx_map_fst]
  rw [producers, getD_foldl_produce _ (by rw [hentries]; exact hnodup) (by simpa using hid)]
  simp [List.mem_zipIdx_iff_getElem?, hid]

namespace Dependencies

variable {size : Nat} {gates : Array Gate}

@[simp] theorem size_ofGates (gates : Array Gate) (producer : Array (Option Nat)) :
    (ofGates gates producer).size = gates.size := by
  simp [ofGates, Dependencies.size]

/-- A gate feeds another exactly when the other one reads the net that it drives. -/
theorem feeds_ofGates_iff (hnodup : (gates.toList.map Gate.output).Nodup)
    (hinputs : ∀ gate ∈ gates.toList, ∀ id ∈ gate.inputNets, id.index < size) {source g : Nat} :
    (ofGates gates (producers size gates)).Feeds source g ↔
      ∃ gate other, gates[g]? = some gate ∧ gates[source]? = some other ∧
        other.output ∈ gate.inputNets := by
  rw [Feeds, sourcesOf, ofGates, Array.getD_eq_getD_getElem?, Array.getElem?_map]
  cases hget : gates[g]? with
  | none => simp
  | some gate =>
      have hmem : gate ∈ gates.toList := Array.mem_toList_iff.2 (Array.mem_of_getElem? hget)
      simp only [Option.map_some, Option.getD_some, List.mem_filterMap, Option.some.injEq]
      constructor
      · rintro ⟨id, hid, hproducer⟩
        obtain ⟨other, hother, rfl⟩ :=
          (producers_eq_some_iff hnodup (hinputs gate hmem id hid)).1 hproducer
        exact ⟨gate, other, rfl, hother, hid⟩
      · rintro ⟨_, other, rfl, hother, hid⟩
        exact ⟨_, hid, (producers_eq_some_iff hnodup (hinputs gate hmem _ hid)).2
          ⟨other, hother, rfl⟩⟩

/-- Only gates of the circuit feed others. -/
theorem inRange_ofGates (hnodup : (gates.toList.map Gate.output).Nodup)
    (hinputs : ∀ gate ∈ gates.toList, ∀ id ∈ gate.inputNets, id.index < size) :
    (ofGates gates (producers size gates)).InRange := by
  intro source g h
  obtain ⟨gate, other, -, hother, -⟩ := (feeds_ofGates_iff hnodup hinputs).1 h
  rw [size_ofGates]
  exact (Array.getElem?_eq_some_iff.1 hother).1

end Dependencies

end Netlist
