/-
Module: Netlist.SortedMap
Layer: Foundations
Purpose: Finite maps kept as a list of entries in strictly ascending key order. Two maps with the same
  entries are equal, and the order of the entries is that of the keys. Input vectors are such maps, listed
  by pin name, and so are wide memories, of which only the cells that are not zero are kept.
Imports: none
Main exports: SortedMap, SortedMap.empty, SortedMap.insert, SortedMap.erase, SortedMap.get?,
  SortedMap.ofList, SortedMap.get?_insert, SortedMap.get?_erase
-/

namespace Netlist

open Std (TransOrd LawfulEqOrd)

/-- A list of entries is ascending when every key is smaller than all later ones. -/
def Ascending {κ ν : Type} [Ord κ] (entries : List (κ × ν)) : Prop :=
  entries.Pairwise (fun a b => compare a.1 b.1 = .lt)

/-- A finite map, as its entries in ascending key order. -/
structure SortedMap (κ ν : Type) [Ord κ] where
  /-- The entries, smallest key first. -/
  entries : List (κ × ν)
  /-- No key repeats and the keys ascend. -/
  ascending : Ascending entries
deriving Repr, DecidableEq

namespace SortedMap

variable {κ ν : Type} [Ord κ]

/-- The map without entries. -/
def empty : SortedMap κ ν :=
  ⟨[], List.Pairwise.nil⟩

instance : Inhabited (SortedMap κ ν) :=
  ⟨empty⟩

/-- The number of entries. -/
def size (m : SortedMap κ ν) : Nat :=
  m.entries.length

/-- Whether the map has no entries. -/
def isEmpty (m : SortedMap κ ν) : Bool :=
  m.entries.isEmpty

/-- The value stored under `key`, if there is one. -/
def get? (m : SortedMap κ ν) (key : κ) : Option ν :=
  (m.entries.find? (fun e => compare key e.1 == .eq)).map (·.2)

/-!
### Insertion

The new entry goes before the first larger key, and takes the place of an entry with an equal key.
-/

/-- Places an entry into a list of ascending entries. -/
def insertEntry (key : κ) (value : ν) : List (κ × ν) → List (κ × ν)
  | [] => [(key, value)]
  | e :: rest =>
    match compare key e.1 with
    | .lt => (key, value) :: e :: rest
    | .eq => (key, value) :: rest
    | .gt => e :: insertEntry key value rest

/-- An entry of the list after an insertion is the new one or was there before. -/
theorem mem_insertEntry {key : κ} {value : ν} {entries : List (κ × ν)} {e : κ × ν}
    (h : e ∈ insertEntry key value entries) : e = (key, value) ∨ e ∈ entries := by
  induction entries with
  | nil => simpa [insertEntry] using h
  | cons d rest ih =>
      rw [insertEntry] at h
      split at h
      · simpa using h
      · -- the equal key is replaced, so `d` itself is gone
        rcases List.mem_cons.1 h with h | h
        · exact Or.inl h
        · exact Or.inr (List.mem_cons_of_mem d h)
      · rcases List.mem_cons.1 h with h | h
        · exact Or.inr (h ▸ List.mem_cons_self)
        · exact (ih h).imp_right (List.mem_cons_of_mem d)

/-- Insertion keeps the entries ascending. -/
theorem ascending_insertEntry [TransOrd κ] [LawfulEqOrd κ] (key : κ) (value : ν)
    {entries : List (κ × ν)} (h : Ascending entries) :
    Ascending (insertEntry key value entries) := by
  induction entries with
  | nil => exact List.pairwise_singleton _ _
  | cons d rest ih =>
      have hd : ∀ e ∈ rest, compare d.1 e.1 = .lt := fun e he => List.rel_of_pairwise_cons h he
      have hrest : Ascending rest := h.of_cons
      rw [insertEntry]
      split
      · next hlt =>
          refine List.Pairwise.cons (fun e he => ?_) h
          rcases List.mem_cons.1 he with rfl | he
          · exact hlt
          · exact Std.TransCmp.lt_trans hlt (hd e he)
      · next heq =>
          have hk : key = d.1 := Std.LawfulEqCmp.eq_of_compare heq
          exact List.Pairwise.cons (fun e he => by simpa [hk] using hd e he) hrest
      · next hgt =>
          refine List.Pairwise.cons (fun e he => ?_) (ih hrest)
          rcases mem_insertEntry he with rfl | he
          · exact Std.OrientedCmp.lt_of_gt hgt
          · exact hd e he

/-- The map with `value` stored under `key`, in place of whatever was there. -/
def insert [TransOrd κ] [LawfulEqOrd κ] (m : SortedMap κ ν) (key : κ) (value : ν) :
    SortedMap κ ν :=
  ⟨insertEntry key value m.entries, ascending_insertEntry key value m.ascending⟩

/-- The map of a list of pairs; a later pair replaces an earlier one with the same key. -/
def ofList [TransOrd κ] [LawfulEqOrd κ] (pairs : List (κ × ν)) : SortedMap κ ν :=
  pairs.foldl (fun m p => m.insert p.1 p.2) empty

/-- The map without the entry of `key`. -/
def erase (m : SortedMap κ ν) (key : κ) : SortedMap κ ν :=
  ⟨m.entries.filter (fun e => compare key e.1 != .eq), m.ascending.filter _⟩

/-!
### The map as a function

What an insertion or an erasure does is told by the values under each key.
-/

/-- The empty map has no values. -/
@[simp] theorem get?_empty (key : κ) : (empty : SortedMap κ ν).get? key = none :=
  rfl

/-- Finding a key in a list after an insertion. -/
theorem find?_insertEntry [LawfulEqOrd κ] (key other : κ) (value : ν) (entries : List (κ × ν)) :
    ((insertEntry key value entries).find? (fun e => compare other e.1 == .eq)).map (·.2) =
      if compare other key == .eq then some value
      else (entries.find? (fun e => compare other e.1 == .eq)).map (·.2) := by
  induction entries with
  | nil => by_cases h : compare other key == .eq <;> simp [insertEntry, h]
  | cons d rest ih =>
      rw [insertEntry]
      split
      · by_cases h : compare other key == .eq <;> simp [h]
      · next heq =>
          -- the replaced entry has the new key, so it answers to the same keys
          have hk : key = d.1 := Std.LawfulEqCmp.eq_of_compare heq
          subst hk
          by_cases h : compare other d.1 == .eq <;> simp [h]
      · next hgt =>
          by_cases hd : compare other d.1 == .eq
          · have hod : other = d.1 := Std.LawfulEqCmp.eq_of_compare (eq_of_beq hd)
            subst hod
            -- `key` lies above `d`, so it is not the key looked for
            have hne : ¬ (compare d.1 key == .eq) = true := by
              intro h
              have hk : d.1 = key := Std.LawfulEqCmp.eq_of_compare (eq_of_beq h)
              subst hk
              simp at hgt
            simp [hne]
          · simp only [List.find?_cons, Bool.not_eq_true] at hd ⊢
            simp only [hd]
            exact ih

/-- After an insertion the inserted key has the new value and every other key the value it had. -/
theorem get?_insert [TransOrd κ] [LawfulEqOrd κ] (m : SortedMap κ ν) (key other : κ) (value : ν) :
    (m.insert key value).get? other =
      if compare other key == .eq then some value else m.get? other :=
  find?_insertEntry key other value m.entries

/-- After an erasure the erased key has no value and every other key the value it had. -/
theorem get?_erase [LawfulEqOrd κ] (m : SortedMap κ ν) (key other : κ) :
    (m.erase key).get? other = if compare other key == .eq then none else m.get? other := by
  rw [get?, erase, List.find?_filter, get?]
  by_cases h : compare other key == .eq
  · -- the entries of the erased key are gone, and no other entry answers to it
    have hk : other = key := Std.LawfulEqCmp.eq_of_compare (eq_of_beq h)
    subst hk
    simp
  · simp only [h]
    congr 2
    funext e
    by_cases he : compare other e.1 == .eq
    · have hoe : other = e.1 := Std.LawfulEqCmp.eq_of_compare (eq_of_beq he)
      subst hoe
      have hne : ¬ compare key e.1 = .eq := by
        intro hke
        have hk : key = e.1 := Std.LawfulEqCmp.eq_of_compare hke
        subst hk
        exact h (by simp)
      simp [hne]
    · simp [he]

end SortedMap

end Netlist
