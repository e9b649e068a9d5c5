/-
Module: Netlist.Proofs.NetTable
Layer: Proofs
Purpose: Several nets changed one after the other, as inputs are driven, registers committed and registers
  reset. When no net is changed twice, each takes the word given to it; all other nets keep their values.
Imports: Mathlib.Data.List.Nodup, Netlist.Circuit.Gate, Netlist.Proofs.Sequence
Main exports: NetTable.assignAll, NetTable.value_assignAll_of_mem, NetTable.value_assignAll_of_not_mem,
  NetTable.assignAll_zip_map
-/
import Mathlib.Data.List.Nodup
import Netlist.Circuit.Gate
import Netlist.Proofs.Sequence

namespace Netlist

namespace NetTable

variable {α : Type} {target : α → NetId} {word : α → Word} {entries : List α} {nets : NetTable}

/-- The table after the net of every entry has been given the word of the entry. -/
def assignAll (target : α → NetId) (word : α → Word) (entries : List α) (nets : NetTable) : NetTable :=
  entries.foldl (fun nets a => NetTable.assign nets (target a) (word a)) nets

@[simp] theorem size_assignAll (target : α → NetId) (word : α → Word) (entries : List α)
    (nets : NetTable) : (assignAll target word entries nets).size = nets.size :=
  size_foldl (fun nets a => NetTable.size_assign nets (target a) (word a)) entries nets

/-- A net of no entry keeps its value. -/
theorem value_assignAll_of_not_mem {id : NetId} (h : id ∉ entries.map target) :
    NetTable.value (assignAll target word entries nets) id = NetTable.value nets id := by
  induction entries generalizing nets with
  | nil => rfl
  | cons a rest ih =>
      rw [List.map_cons, List.mem_cons, not_or] at h
      exact (ih h.2).trans (NetTable.value_assign_of_ne _ h.1)

/-- When the nets of the entries differ, the net of an entry has the word of the entry. -/
theorem value_assignAll_of_mem (hnodup : (entries.map target).Nodup) {a : α} (ha : a ∈ entries)
    (hlt : (target a).index < nets.size) :
    NetTable.value (assignAll target word entries nets) (target a) = word a := by
  induction entries generalizing nets with
  | nil => cases ha
  | cons b rest ih =>
      rw [List.map_cons, List.nodup_cons] at hnodup
      rcases List.mem_cons.1 ha with rfl | ha
      · exact (value_assignAll_of_not_mem hnodup.1).trans (NetTable.value_assign_self _ hlt)
      · exact ih hnodup.2 ha (by rw [NetTable.size_assign]; exact hlt)

/-- Words that are computed from the entries can be listed beside them. -/
theorem assignAll_zip_map (target : α → NetId) (word : α → Word) (entries : List α)
    (nets : NetTable) :
    assignAll (fun e => target e.1) Prod.snd (entries.zip (entries.map word)) nets =
      assignAll target word entries nets := by
  induction entries generalizing nets with
  | nil => rfl
  | cons a rest ih => exact ih (NetTable.assign nets (target a) (word a))

end NetTable

end Netlist
