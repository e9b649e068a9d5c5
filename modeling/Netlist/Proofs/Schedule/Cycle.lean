/-
Module: Netlist.Proofs.Schedule.Cycle
Layer: Proofs
Purpose: What a schedule says about the dependencies. When all gates are released, the schedule lists every
  gate once and after its sources, so no gate feeds itself over other gates. When some are left, each of
  them has a source that is left too, and the walk along such sources comes back to a gate it has passed:
  what it reports is a cycle.
Imports: Mathlib.Data.List.Chain, Netlist.Proofs.Schedule.Release
Main exports: Dependencies.InRange, Dependencies.IsCycle, Dependencies.Acyclic, Dependencies.Walks,
  Dependencies.schedule_ok, Dependencies.schedule_error, Dependencies.Ordered.idxOf_lt
-/
import Mathlib.Data.List.Chain
import Netlist.Proofs.Schedule.Release

namespace Netlist

namespace Dependencies

open Relation (TransGen ReflTransGen)

variable {deps : Dependencies}

/-- Every source is a gate. -/
def InRange (deps : Dependencies) : Prop :=
  ∀ source gate, deps.Feeds source gate → source < deps.size

/-- No gate feeds itself, directly or over other gates. -/
def Acyclic (deps : Dependencies) : Prop :=
  ∀ gate, ¬ TransGen deps.Feeds gate gate

/-- Gates of which each feeds the next and the last feeds the first. -/
structure IsCycle (deps : Dependencies) (cycle : List Nat) : Prop where
  ne_nil : cycle ≠ []
  nodup : cycle.Nodup
  chain : cycle.IsChain deps.Feeds
  closes : deps.Feeds (cycle.getLast ne_nil) (cycle.head ne_nil)

theorem IsCycle.not_acyclic {cycle : List Nat} (h : deps.IsCycle cycle) : ¬ deps.Acyclic := by
  intro hacyclic
  have hpath : ReflTransGen deps.Feeds (cycle.head h.ne_nil) (cycle.getLast h.ne_nil) :=
    List.relationReflTransGen_of_exists_isChain cycle h.chain h.ne_nil
  exact hacyclic _ (TransGen.tail' hpath h.closes)

/-- Everything on a cycle is a gate. -/
theorem IsCycle.lt_size {cycle : List Nat} (h : deps.IsCycle cycle) :
    ∀ gate ∈ cycle, gate < deps.size :=
  -- every gate on the cycle is fed, the first by the last and the others by their predecessors
  List.IsChain.induction (fun gate => gate < deps.size) cycle h.chain
    (fun _ _ hfeeds _ => hfeeds.lt_size) (fun _ => h.closes.lt_size)

/-!
### All gates released
-/

/-- Along the dependencies, positions in an order go up. -/
theorem Ordered.idxOf_lt {order : List Nat} (h : deps.Ordered order) {source gate : Nat}
    (hgate : gate ∈ order) (hfeeds : deps.Feeds source gate) :
    order.idxOf source < order.idxOf gate := by
  obtain ⟨before, after, rfl, hnot⟩ := List.eq_append_cons_of_mem hgate
  have hsource : source ∈ before := h before gate after rfl source hfeeds
  rw [List.idxOf_append_of_mem hsource, List.idxOf_append_of_notMem hnot, List.idxOf_cons_self]
  exact List.idxOf_lt_length_iff.2 hsource

/-- A list without repeats in which positions go up along the dependencies is in order. -/
theorem ordered_of_idxOf_lt {order : List Nat} (hnodup : order.Nodup)
    (h : ∀ source gate, deps.Feeds source gate → order.idxOf source < order.idxOf gate) :
    deps.Ordered order := by
  intro before gate after heq source hfeeds
  have hlt := h source gate hfeeds
  subst heq
  have hnot : gate ∉ before := fun hmem =>
    List.disjoint_of_nodup_append hnodup hmem List.mem_cons_self
  rw [List.idxOf_append_of_notMem hnot, List.idxOf_cons_self, Nat.add_zero] at hlt
  by_contra hsource
  rw [List.idxOf_append_of_notMem hsource] at hlt
  omega

/-- If all gates can be put in order, no gate feeds itself. -/
theorem Ordered.acyclic {order : List Nat} (h : deps.Ordered order)
    (hall : ∀ gate < deps.size, gate ∈ order) : deps.Acyclic := by
  have hlt : ∀ source gate, TransGen deps.Feeds source gate →
      order.idxOf source < order.idxOf gate := by
    intro source gate hpath
    induction hpath with
    | single hfeeds => exact h.idxOf_lt (hall _ hfeeds.lt_size) hfeeds
    | tail _ hfeeds ih => exact ih.trans (h.idxOf_lt (hall _ hfeeds.lt_size) hfeeds)
  intro gate hcycle
  exact Nat.lt_irrefl _ (hlt gate gate hcycle)

theorem released_subset (deps : Dependencies) :
    deps.released.toList ⊆ List.range deps.size := by
  intro gate hgate
  exact List.mem_range.2 (lt_size_of_mem_released hgate)

/-- A schedule lists every gate once, after all of its sources. -/
theorem schedule_ok {order : List Nat} (h : deps.schedule = .ok order) :
    order.Perm (List.range deps.size) ∧ deps.Ordered order := by
  rw [schedule] at h
  split at h
  · next hsize =>
      obtain rfl : deps.released.toList = order := by injection h
      refine ⟨?_, ordered_released deps⟩
      refine ((nodup_released deps).subperm (released_subset deps)).perm_of_length_le ?_
      rw [List.length_range, Array.length_toList, hsize]
  · cases h

/-!
### Some gates left
-/

theorem getD_foldl_mark (order : List Nat) (marks : Array Bool) (gate : Nat)
    (hgate : gate < marks.size) :
    (order.foldl (fun marks g => marks.setIfInBounds g true) marks).getD gate false = true ↔
      marks.getD gate false = true ∨ gate ∈ order := by
  induction order generalizing marks with
  | nil => simp
  | cons g rest ih =>
      rw [List.foldl_cons, ih _ (by simpa using hgate), List.mem_cons]
      by_cases heq : g = gate
      · subst heq
        simp [hgate]
      · simp [heq, Ne.symm heq]

theorem size_foldl_mark (order : Array Nat) (marks : Array Bool) :
    (order.foldl (fun marks g => marks.setIfInBounds g true) marks).size = marks.size := by
  rw [← Array.foldl_toList]
  exact size_foldl (fun _ _ => Array.size_setIfInBounds) order.toList marks

/-- Whether a gate carries the mark of the released gates. -/
def marked (deps : Dependencies) (gate : Nat) : Bool :=
  (deps.released.foldl (fun marks g => marks.setIfInBounds g true)
    (Array.replicate deps.size false)).getD gate false

theorem marked_iff {gate : Nat} (h : gate < deps.size) :
    deps.marked gate = true ↔ gate ∈ deps.released.toList := by
  rw [marked, ← Array.foldl_toList, getD_foldl_mark _ _ _ (by simpa using h)]
  simp [h]

/-- A gate without the mark has a source without the mark. -/
theorem exists_unmarked_source (hrange : deps.InRange) {gate : Nat} (h : gate < deps.size)
    (hgate : deps.marked gate = false) :
    ∃ source, deps.Feeds source gate ∧ deps.marked source = false := by
  have hmem : gate ∉ deps.released.toList := by
    rw [← marked_iff h, hgate]
    decide
  rw [mem_released_iff h] at hmem
  push Not at hmem
  obtain ⟨source, hfeeds, hsource⟩ := hmem
  rw [← marked_iff (hrange _ _ hfeeds), Bool.not_eq_true] at hsource
  exact ⟨source, hfeeds, hsource⟩

/-- If every gate carries the mark, as many gates have been released as there are. -/
theorem size_released_of_marked (h : ∀ gate < deps.size, deps.marked gate = true) :
    deps.released.size = deps.size := by
  have hsubset : List.range deps.size ⊆ deps.released.toList := by
    intro gate hgate
    have hlt := List.mem_range.1 hgate
    exact (marked_iff hlt).1 (h gate hlt)
  have hle := (List.nodup_range.subperm hsubset).length_le
  have hge := ((nodup_released deps).subperm (released_subset deps)).length_le
  rw [List.length_range, Array.length_toList] at hle hge
  exact Nat.le_antisymm hge hle

/-- The state of the walk: the gates passed, last gate first, and the gate it has come to. -/
structure Walking (deps : Dependencies) (isReleased : Nat → Bool) (path : List Nat) (gate : Nat) :
    Prop where
  nodup : path.Nodup
  chain : path.IsChain deps.Feeds
  /-- The walk has come to its gate as a source of the last gate passed. -/
  reached : ∀ last ∈ path.head?, deps.Feeds gate last
  lt_size : ∀ g ∈ path, g < deps.size
  gate_lt_size : gate < deps.size
  gate_left : isReleased gate = false

variable {isReleased : Nat → Bool} {path : List Nat} {gate : Nat}

theorem Walking.length_le (h : Walking deps isReleased path gate) : path.length ≤ deps.size := by
  have hsubset : path ⊆ List.range deps.size := fun g hg => List.mem_range.2 (h.lt_size g hg)
  simpa using (h.nodup.subperm hsubset).length_le

/-- The gates before the first place of a gate. -/
theorem takeWhile_append_cons {before after : List Nat} (h : gate ∉ before) :
    (before ++ gate :: after).takeWhile (· != gate) = before := by
  rw [List.takeWhile_append_of_pos]
  · simp
  · intro g hg
    simpa using fun heq : g = gate => h (heq ▸ hg)

/-- When the walk comes back to a gate it has passed, the gates since then are a cycle. -/
theorem Walking.isCycle (h : Walking deps isReleased path gate) (hmem : gate ∈ path) :
    deps.IsCycle (path.takeWhile (· != gate) ++ [gate]) := by
  obtain ⟨before, after, rfl, hnot⟩ := List.eq_append_cons_of_mem hmem
  rw [takeWhile_append_cons hnot]
  have hinit : before ++ [gate] <+: before ++ gate :: after := ⟨after, by simp⟩
  have hne : before ++ [gate] ≠ [] := by simp
  refine ⟨hne, h.nodup.sublist hinit.sublist, h.chain.prefix hinit, ?_⟩
  rw [List.getLast_append_singleton]
  refine h.reached _ ?_
  rw [hinit.head hne]
  exact List.head_mem_head? _

/-- The walk goes on at a source that is left. -/
theorem Walking.next {source : Nat} (h : Walking deps isReleased path gate) (hnew : gate ∉ path)
    (hrange : deps.InRange) (hfeeds : deps.Feeds source gate)
    (hsource : isReleased source = false) : Walking deps isReleased (gate :: path) source := by
  refine ⟨h.nodup.cons hnew, List.isChain_cons.2 ⟨h.reached, h.chain⟩, ?_, ?_,
    hrange _ _ hfeeds, hsource⟩
  · intro last hlast
    cases hlast
    exact hfeeds
  · intro g hg
    rcases List.mem_cons.1 hg with rfl | hg
    · exact h.gate_lt_size
    · exact h.lt_size g hg

/-- The walk as a loop, which goes from a gate to the first of its sources that is left for as long as no
    gate comes up again. It has no way on from a gate without such a source, and no way to end there. -/
inductive Walks (deps : Dependencies) (isReleased : Nat → Bool) :
    List Nat → Nat → List Nat → Prop where
  | closed {path : List Nat} {gate : Nat} (again : gate ∈ path) :
      Walks deps isReleased path gate (path.takeWhile (· != gate) ++ [gate])
  | next {path cycle : List Nat} {gate source : Nat} (new : gate ∉ path)
      (left : (deps.sourcesOf gate).find? (fun source => !isReleased source) = some source)
      (rest : Walks deps isReleased (gate :: path) source cycle) :
      Walks deps isReleased path gate cycle

/-- Where every gate that is left has a source that is left, the walk closes before its steps run out. -/
theorem walks_walk (hrange : deps.InRange)
    (hleft : ∀ gate < deps.size, isReleased gate = false →
      ∃ source, deps.Feeds source gate ∧ isReleased source = false)
    (steps : Nat) (h : Walking deps isReleased path gate)
    (hsteps : deps.size < steps + path.length) :
    Walks deps isReleased path gate (walk deps isReleased steps path gate) := by
  induction steps generalizing path gate with
  | zero =>
      have hlength := h.length_le
      omega
  | succ steps ih =>
      rw [walk]
      by_cases hmem : gate ∈ path
      · rw [if_pos (List.contains_iff_mem.2 hmem)]
        exact .closed hmem
      · rw [if_neg (fun hcontains => hmem (List.contains_iff_mem.1 hcontains))]
        rcases hleft gate h.gate_lt_size h.gate_left with ⟨source, hfeeds, hsource⟩
        cases hfind : (deps.sourcesOf gate).find? (fun source => !isReleased source) with
        | none =>
            -- the walk never ends at a gate without a source that is left
            have hall := List.find?_eq_none.1 hfind source hfeeds
            simp [hsource] at hall
        | some found =>
            have hfound : isReleased found = false := by simpa using List.find?_some hfind
            apply Walks.next hmem hfind
            apply ih (h.next hmem hrange (List.mem_of_find?_eq_some hfind) hfound)
            rw [List.length_cons]
            omega

/-- A walk that closes has found a cycle. -/
theorem Walks.isCycle {cycle : List Nat} (hwalks : Walks deps isReleased path gate cycle)
    (hrange : deps.InRange) (h : Walking deps isReleased path gate) : deps.IsCycle cycle := by
  induction hwalks with
  | closed again => exact h.isCycle again
  | next new left _ ih =>
      have hleft := List.find?_some left
      rw [Bool.not_eq_true'] at hleft
      exact ih (h.next new hrange (List.mem_of_find?_eq_some left) hleft)

/-- When not all gates can be released, the walk from the first gate that is left closes. -/
theorem exists_walks (hrange : deps.InRange) (h : deps.released.size ≠ deps.size) :
    ∃ start, (List.range deps.size).find? (fun g => !deps.marked g) = some start ∧
      Walking deps deps.marked [] start ∧
      Walks deps deps.marked [] start (deps.cycle deps.released) := by
  cases hfind : (List.range deps.size).find? (fun g => !deps.marked g) with
  | none =>
      refine absurd (size_released_of_marked (fun gate hgate => ?_)) h
      simpa using List.find?_eq_none.1 hfind gate (List.mem_range.2 hgate)
  | some start =>
      have hstart : Walking deps deps.marked [] start := by
        refine ⟨List.nodup_nil, List.isChain_nil, ?_, ?_, ?_, ?_⟩
        · intro last hlast
          cases hlast
        · intro gate hgate
          cases hgate
        · exact List.mem_range.1 (List.mem_of_find?_eq_some hfind)
        · simpa using List.find?_some hfind
      have hcycle : deps.cycle deps.released = walk deps deps.marked (deps.size + 1) [] start := by
        simp only [marked] at hfind
        simp only [Dependencies.cycle, hfind]
        rfl
      refine ⟨start, rfl, hstart, ?_⟩
      rw [hcycle]
      exact walks_walk hrange (fun gate hgate => exists_unmarked_source hrange hgate) _ hstart
        (Nat.lt_succ_self _)

/-- When not all gates can be released, the gates that are reported form a cycle. -/
theorem isCycle_cycle (hrange : deps.InRange) (h : deps.released.size ≠ deps.size) :
    deps.IsCycle (deps.cycle deps.released) := by
  obtain ⟨start, -, hstart, hwalks⟩ := exists_walks hrange h
  exact hwalks.isCycle hrange hstart

/-- When there is no schedule, the gates that are reported form a cycle. -/
theorem schedule_error {cycle : List Nat} (hrange : deps.InRange)
    (h : deps.schedule = .error cycle) : deps.IsCycle cycle := by
  rw [schedule] at h
  split at h
  · cases h
  · next hsize =>
      obtain rfl : deps.cycle deps.released = cycle := by injection h
      exact isCycle_cycle hrange hsize

/-- There is a schedule exactly when no gate feeds itself. -/
theorem schedule_ok_iff (hrange : deps.InRange) :
    (∃ order, deps.schedule = .ok order) ↔ deps.Acyclic := by
  constructor
  · rintro ⟨order, h⟩
    obtain ⟨hperm, hordered⟩ := schedule_ok h
    exact hordered.acyclic (fun gate hgate => hperm.mem_iff.2 (List.mem_range.2 hgate))
  · intro hacyclic
    cases h : deps.schedule with
    | ok order => exact ⟨order, rfl⟩
    | error cycle => exact absurd hacyclic (schedule_error hrange h).not_acyclic

end Dependencies

end Netlist
