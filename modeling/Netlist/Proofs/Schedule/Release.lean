/-
Module: Netlist.Proofs.Schedule.Release
Layer: Proofs
Purpose: What the release of gates establishes. While gates take their turns, every gate waits for exactly
  as many operands as come from gates that have not had their turn, and a gate has been released exactly
  when it waits for nothing. One notification keeps this, so a whole turn and the whole release keep it;
  at the end the released gates are those whose sources have all been released, each listed once and
  after all of its sources.
Imports: Mathlib.Data.List.Nodup, Mathlib.Data.List.Perm.Subperm, Netlist.Circuit.Schedule,
  Netlist.Proofs.Sequence
Main exports: Dependencies.Feeds, Dependencies.Ordered, Dependencies.Releasing,
  Dependencies.releasing_notify, Dependencies.Releases, Dependencies.releases_release,
  Dependencies.mem_released_iff
-/
import Mathlib.Data.List.Nodup
import Mathlib.Data.List.Perm.Subperm
import Netlist.Circuit.Schedule
import Netlist.Proofs.Sequence

namespace Netlist

namespace Dependencies

variable {deps : Dependencies}

/-- Gate `source` feeds gate `gate`: the gate waits for it. -/
def Feeds (deps : Dependencies) (source gate : Nat) : Prop :=
  source ∈ deps.sourcesOf gate

/-- Every gate of the list comes after all of its sources. -/
def Ordered (deps : Dependencies) (order : List Nat) : Prop :=
  ∀ before gate after, order = before ++ gate :: after → ∀ source, deps.Feeds source gate →
    source ∈ before

theorem Feeds.lt_size {source gate : Nat} (h : deps.Feeds source gate) : gate < deps.size := by
  by_contra hge
  have hnone : deps.sources[gate]? = none := Array.getElem?_eq_none (Nat.not_lt.1 hge)
  simp [Feeds, sourcesOf, hnone] at h

theorem ordered_of_sources_empty {order : List Nat}
    (h : ∀ gate ∈ order, deps.sourcesOf gate = []) : deps.Ordered order := by
  intro before gate after heq source hfeeds
  have hmem : gate ∈ order := by simp [heq]
  simp [Feeds, h gate hmem] at hfeeds

/-- A gate can be added at the end once all of its sources are there. -/
theorem Ordered.concat {order : List Nat} {gate : Nat} (h : deps.Ordered order)
    (hsources : ∀ source, deps.Feeds source gate → source ∈ order) :
    deps.Ordered (order ++ [gate]) := by
  intro before g after heq source hfeeds
  rcases List.eq_nil_or_concat after with rfl | ⟨rest, last, rfl⟩
  · obtain ⟨rfl, hlast⟩ := List.append_inj' heq rfl
    cases hlast
    exact hsources source hfeeds
  · -- the added gate is the last of the later ones
    rw [List.concat_eq_append, ← List.cons_append, ← List.append_assoc] at heq
    obtain ⟨heq, -⟩ := List.append_inj' heq rfl
    exact h before g rest heq source hfeeds

/-!
### The gates that wait for a gate
-/

/-- The gates that wait for a gate, in ascending order and once for each operand. -/
def consumersOf (deps : Dependencies) (source : Nat) : List Nat :=
  (List.range deps.size).flatMap
    (fun gate => List.replicate ((deps.sourcesOf gate).count source) gate)

theorem getD_enter (table : Array (Array Nat)) (gate source : Nat) (sources : List Nat)
    (h : source < table.size) :
    ((sources.foldl (fun table s => table.modify s (·.push gate)) table).getD source #[]).toList =
      (table.getD source #[]).toList ++ List.replicate (sources.count source) gate := by
  induction sources generalizing table with
  | nil => simp
  | cons s rest ih =>
      rw [List.foldl_cons, ih _ (by simpa using h)]
      by_cases hs : s = source
      · subst hs
        simp [Array.getElem_modify, h, List.replicate_succ]
      · simp [Array.getElem?_modify, hs, List.count_cons_of_ne hs]

theorem size_enter (table : Array (Array Nat)) (gate : Nat) (sources : List Nat) :
    (sources.foldl (fun table s => table.modify s (·.push gate)) table).size = table.size :=
  size_foldl (fun _ _ => Array.size_modify) sources table

theorem size_consumers (deps : Dependencies) : deps.consumers.size = deps.size := by
  rw [consumers, size_foldl (fun table gate => size_enter table gate _), Array.size_replicate]

/-- The table of consumers lists, for each gate, the gates that wait for it. -/
theorem getD_consumers {source : Nat} (h : source < deps.size) :
    (deps.consumers.getD source #[]).toList = deps.consumersOf source := by
  have hfold : ∀ (gates : List Nat) (table : Array (Array Nat)), source < table.size →
      ((gates.foldl (fun table gate => (deps.sourcesOf gate).foldl
          (fun table s => table.modify s (·.push gate)) table) table).getD source #[]).toList =
        (table.getD source #[]).toList ++
          gates.flatMap (fun gate => List.replicate ((deps.sourcesOf gate).count source) gate) := by
    intro gates
    induction gates with
    | nil => simp
    | cons gate rest ih =>
        intro table htable
        rw [List.foldl_cons, ih _ (by rw [size_enter]; exact htable), getD_enter _ _ _ _ htable,
          List.flatMap_cons, List.append_assoc]
  rw [consumers, hfold _ _ (by simpa using h), consumersOf]
  simp [h]

/-- A gate waits for a source as often as it reads it. -/
theorem count_consumersOf {source gate : Nat} (h : gate < deps.size) :
    (deps.consumersOf source).count gate = (deps.sourcesOf gate).count source := by
  have hsum : ∀ gates : List Nat, gates.Nodup →
      (gates.flatMap (fun g => List.replicate ((deps.sourcesOf g).count source) g)).count gate =
        if gate ∈ gates then (deps.sourcesOf gate).count source else 0 := by
    intro gates hnodup
    induction gates with
    | nil => simp
    | cons g rest ih =>
        obtain ⟨hg, hrest⟩ := List.nodup_cons.1 hnodup
        rw [List.flatMap_cons, List.count_append, ih hrest, List.count_replicate]
        by_cases hgate : g = gate
        · subst hgate
          simp [hg]
        · simp [hgate, Ne.symm hgate]
  rw [consumersOf, hsum _ List.nodup_range, if_pos (List.mem_range.2 h)]

theorem lt_size_of_mem_consumersOf {source gate : Nat} (h : gate ∈ deps.consumersOf source) :
    gate < deps.size := by
  obtain ⟨g, hg, hmem⟩ := List.mem_flatMap.1 h
  rw [(List.mem_replicate.1 hmem).2]
  exact List.mem_range.1 hg

/-!
### The invariant of the release

`done` are the gates that have had their turn, the last of them possibly still with the notifications
`todo` to deliver.
-/

def Progress.left (progress : Progress) (gate : Nat) : Nat :=
  progress.waiting.getD gate 0

/-- How far the release has come, told by what it has established. -/
structure Releasing (deps : Dependencies) (done todo : List Nat) (progress : Progress) : Prop where
  size_waiting : progress.waiting.size = deps.size
  /-- A gate waits for its operands from gates without a turn, and for notifications under way. -/
  waiting : ∀ gate < deps.size, progress.left gate =
    (deps.sourcesOf gate).countP (fun source => decide (source ∉ done)) + todo.count gate
  /-- The released gates are those that wait for nothing. -/
  released : ∀ gate < deps.size, (gate ∈ progress.order.toList ↔ progress.left gate = 0)
  lt_size : ∀ gate ∈ progress.order.toList, gate < deps.size
  nodup : progress.order.toList.Nodup
  /-- Gates have their turns after their release. -/
  done_subset : done ⊆ progress.order.toList
  ordered : deps.Ordered progress.order.toList

theorem releasing_initial (deps : Dependencies) : Releasing deps [] [] deps.initial := by
  have hleft : ∀ gate, deps.initial.left gate = (deps.sourcesOf gate).length := by
    intro gate
    simp only [Progress.left, initial, sourcesOf, Array.getD_eq_getD_getElem?, Array.getElem?_map]
    cases deps.sources[gate]? <;> rfl
  have hmem : ∀ gate, gate ∈ deps.initial.order.toList ↔
      gate < deps.size ∧ deps.sourcesOf gate = [] := by
    intro gate
    simp [initial]
  refine ⟨?_, ?_, ?_, ?_, ?_, ?_, ?_⟩
  · simp [initial, size]
  · intro gate _
    rw [hleft]
    simp
  · intro gate hgate
    rw [hmem, hleft, List.length_eq_zero_iff]
    exact and_iff_right hgate
  · intro gate hgate
    exact ((hmem gate).1 hgate).1
  · simpa [initial] using List.nodup_range.filter _
  · exact List.nil_subset _
  · exact ordered_of_sources_empty (fun gate hgate => ((hmem gate).1 hgate).2)

variable {done todo : List Nat} {progress : Progress} {gate : Nat}

/-- A notification is delivered only to a gate that still waits. -/
theorem Releasing.left_pos (h : Releasing deps done (gate :: todo) progress)
    (hgate : gate < deps.size) : 0 < progress.left gate := by
  rw [h.waiting gate hgate, List.count_cons_self]
  omega

theorem waiting_notify (progress : Progress) (gate : Nat) : (notify progress gate).waiting =
    progress.waiting.setIfInBounds gate (progress.left gate - 1) := by
  by_cases hone : progress.left gate = 1
  · rw [notify, if_pos (by exact hone)]
    rfl
  · rw [notify, if_neg (by exact hone)]
    rfl

theorem order_notify_of_eq (h : progress.left gate = 1) :
    (notify progress gate).order.toList = progress.order.toList ++ [gate] := by
  rw [notify, if_pos (by exact h), Array.toList_push]

theorem order_notify_of_ne (h : progress.left gate ≠ 1) :
    (notify progress gate).order = progress.order := by
  rw [notify, if_neg (by exact h)]

theorem left_notify_self (h : gate < progress.waiting.size) :
    (notify progress gate).left gate = progress.left gate - 1 := by
  rw [Progress.left, waiting_notify]
  simp [h]

theorem left_notify_of_ne {other : Nat} (h : other ≠ gate) :
    (notify progress gate).left other = progress.left other := by
  rw [Progress.left, Progress.left, waiting_notify]
  simp [Ne.symm h]

/-- A notification leaves a prefix of the order as it is. -/
theorem order_prefix_notify (progress : Progress) (gate : Nat) :
    progress.order.toList <+: (notify progress gate).order.toList := by
  by_cases hone : progress.left gate = 1
  · rw [order_notify_of_eq hone]
    exact List.prefix_append _ _
  · refine ⟨[], ?_⟩
    rw [order_notify_of_ne hone, List.append_nil]

/-- One notification keeps the invariant. -/
theorem releasing_notify (h : Releasing deps done (gate :: todo) progress)
    (hgate : gate < deps.size) : Releasing deps done todo (notify progress gate) := by
  have hpos := h.left_pos hgate
  have hself : (notify progress gate).left gate = progress.left gate - 1 :=
    left_notify_self (by rw [h.size_waiting]; exact hgate)
  have hnow := h.waiting gate hgate
  rw [List.count_cons_self] at hnow
  have hsize : (notify progress gate).waiting.size = deps.size := by
    rw [waiting_notify, Array.size_setIfInBounds, h.size_waiting]
  -- the counter of the notified gate goes down by one, the others stay
  have hwaiting : ∀ other < deps.size, (notify progress gate).left other =
      (deps.sourcesOf other).countP (fun source => decide (source ∉ done)) +
        todo.count other := by
    intro other hother
    by_cases heq : other = gate
    · subst heq
      omega
    · rw [left_notify_of_ne heq, h.waiting other hother, List.count_cons_of_ne (Ne.symm heq)]
  by_cases hone : progress.left gate = 1
  · -- the last operand has come: every source has had its turn, and the gate is released
    have hnew : gate ∉ progress.order.toList := by
      rw [h.released gate hgate, hone]
      decide
    have hsources : ∀ source, deps.Feeds source gate → source ∈ progress.order.toList := by
      intro source hfeeds
      have hzero : (deps.sourcesOf gate).countP (fun source => decide (source ∉ done)) = 0 := by
        omega
      exact h.done_subset (by simpa using List.countP_eq_zero.1 hzero source hfeeds)
    refine ⟨hsize, hwaiting, ?_, ?_, ?_, ?_, ?_⟩ <;> rw [order_notify_of_eq hone]
    · intro other hother
      by_cases heq : other = gate
      · subst heq
        simp [hself, hone]
      · rw [left_notify_of_ne heq, ← h.released other hother]
        simp [heq]
    · intro other hmem
      rcases List.mem_append.1 hmem with hmem | hmem
      · exact h.lt_size other hmem
      · exact List.mem_singleton.1 hmem ▸ hgate
    · rw [← List.concat_eq_append]
      exact h.nodup.concat hnew
    · exact List.Subset.trans h.done_subset (List.subset_append_left _ _)
    · exact h.ordered.concat hsources
  · refine ⟨hsize, hwaiting, ?_, ?_, ?_, ?_, ?_⟩ <;> rw [order_notify_of_ne hone]
    · intro other hother
      by_cases heq : other = gate
      · subst heq
        rw [hself, h.released other hother]
        omega
      · rw [left_notify_of_ne heq, h.released other hother]
    · exact h.lt_size
    · exact h.nodup
    · exact h.done_subset
    · exact h.ordered

/-- All notifications of a turn together keep the invariant. -/
theorem releasing_foldl_notify (h : Releasing deps done todo progress)
    (htodo : ∀ gate ∈ todo, gate < deps.size) :
    Releasing deps done [] (todo.foldl notify progress) ∧
      progress.order.toList <+: (todo.foldl notify progress).order.toList := by
  induction todo generalizing progress with
  | nil => exact ⟨h, List.prefix_refl _⟩
  | cons gate rest ih =>
      have hstep := releasing_notify h (htodo gate List.mem_cons_self)
      obtain ⟨hrest, hinit⟩ := ih hstep (fun g hg => htodo g (List.mem_cons_of_mem _ hg))
      exact ⟨hrest, (order_prefix_notify progress gate).trans hinit⟩

/-- A gate that takes its turn has notifications to deliver to all gates that wait for it. -/
theorem Releasing.begin_turn (h : Releasing deps done [] progress) (hgate : gate ∈ progress.order.toList)
    (hdone : gate ∉ done) :
    Releasing deps (done ++ [gate]) (deps.consumersOf gate) progress := by
  refine ⟨h.size_waiting, ?_, h.released, h.lt_size, h.nodup, ?_, h.ordered⟩
  · intro other hother
    rw [h.waiting other hother, count_consumersOf hother, List.count_nil, Nat.add_zero]
    -- the operands from the gate itself change sides
    induction deps.sourcesOf other with
    | nil => rfl
    | cons source rest ih =>
        rw [List.countP_cons, List.countP_cons, List.count_cons, ih]
        by_cases heq : source = gate
        · subst heq
          simp [hdone]
          omega
        · by_cases hmem : source ∈ done
          · simp [heq, hmem]
          · simp [heq, hmem]
            omega
  · intro source hsource
    rcases List.mem_append.1 hsource with hsource | hsource
    · exact h.done_subset hsource
    · exact List.mem_singleton.1 hsource ▸ hgate

theorem Releasing.begin_next {next : Nat}
    (h : Releasing deps (progress.order.toList.take next) [] progress)
    (hnext : progress.order[next]? = some gate) :
    Releasing deps (progress.order.toList.take (next + 1)) (deps.consumersOf gate) progress := by
  have hlist : progress.order.toList[next]? = some gate := by simpa using hnext
  obtain ⟨hlt, hget⟩ := List.getElem?_eq_some_iff.1 hlist
  have htake : progress.order.toList.take (next + 1) =
      progress.order.toList.take next ++ [gate] := by
    rw [List.take_succ_eq_append_getElem hlt, hget]
  have hdone : gate ∉ progress.order.toList.take next := by
    have hnodup := h.nodup.sublist (List.take_sublist (next + 1) _)
    rw [htake, ← List.concat_eq_append] at hnodup
    exact ((List.nodup_concat _ _).1 hnodup).1
  rw [htake]
  exact h.begin_turn (List.mem_of_getElem? hlist) hdone

/-- A whole turn of the gate at position `next` keeps the invariant. -/
theorem Releasing.turn {next : Nat}
    (h : Releasing deps (progress.order.toList.take next) [] progress)
    (hnext : progress.order[next]? = some gate) :
    Releasing deps
      (((deps.consumers.getD gate #[]).foldl notify progress).order.toList.take (next + 1)) []
      ((deps.consumers.getD gate #[]).foldl notify progress) := by
  have hlist : progress.order.toList[next]? = some gate := by simpa using hnext
  have hlt := (List.getElem?_eq_some_iff.1 hlist).1
  rw [← Array.foldl_toList, getD_consumers (h.lt_size gate (List.mem_of_getElem? hlist))]
  obtain ⟨hturn, hinit⟩ := releasing_foldl_notify (h.begin_next hnext)
    (fun g hg => lt_size_of_mem_consumersOf hg)
  -- gates released in this turn come at the end, so the turns taken are still a front part
  have hfront := List.prefix_iff_eq_take.1 ((List.take_prefix (next + 1) _).trans hinit)
  rw [List.length_take, Nat.min_eq_left hlt] at hfront
  rw [← hfront]
  exact hturn

theorem Releasing.length_le (h : Releasing deps done todo progress) :
    progress.order.toList.length ≤ deps.size := by
  have hsubset : progress.order.toList ⊆ List.range deps.size := by
    intro gate hgate
    exact List.mem_range.2 (h.lt_size gate hgate)
  simpa using (h.nodup.subperm hsubset).length_le

/-!
### The release as a loop

The definition counts down turns; the loop goes on for as long as a gate is ready.
-/

/-- Gates take their turns, from the one at a position on, for as long as one is ready. -/
inductive Releases (consumers : Array (Array Nat)) : Nat → Progress → Progress → Prop where
  | ended {next : Nat} {progress : Progress} (idle : progress.order[next]? = none) :
      Releases consumers next progress progress
  | turn {next gate : Nat} {progress last : Progress} (ready : progress.order[next]? = some gate)
      (rest : Releases consumers (next + 1) ((consumers.getD gate #[]).foldl notify progress) last) :
      Releases consumers next progress last

/-- No gate is released twice, so the loop ends before the turns that are counted down do. -/
theorem releases_release (turns next : Nat)
    (h : Releasing deps (progress.order.toList.take next) [] progress)
    (hturns : deps.size ≤ turns + next) :
    Releases deps.consumers next progress (release deps.consumers turns next progress) := by
  induction turns generalizing next progress with
  | zero =>
      have hlength := h.length_le
      rw [Array.length_toList] at hlength
      apply Releases.ended
      apply Array.getElem?_eq_none
      omega
  | succ turns ih =>
      rw [release]
      cases hnext : progress.order[next]? with
      | none => exact .ended hnext
      | some gate =>
          apply Releases.turn hnext
          apply ih (next + 1) (h.turn hnext)
          omega

/-- The loop ends with every released gate having had its turn. -/
theorem Releases.releasing {next : Nat} {last : Progress}
    (hreleases : Releases deps.consumers next progress last)
    (h : Releasing deps (progress.order.toList.take next) [] progress) :
    Releasing deps last.order.toList [] last := by
  induction hreleases with
  | ended idle =>
      have hsize := Array.getElem?_eq_none_iff.1 idle
      rw [List.take_of_length_le hsize] at h
      exact h
  | turn ready _ ih => exact ih (h.turn ready)

/-!
### The released gates
-/

theorem releasing_released (deps : Dependencies) :
    ∃ progress, progress.order = deps.released ∧
      Releasing deps deps.released.toList [] progress :=
  ⟨_, rfl, (releases_release deps.size 0 (releasing_initial deps) (Nat.le_refl _)).releasing
    (releasing_initial deps)⟩

theorem nodup_released (deps : Dependencies) : deps.released.toList.Nodup := by
  obtain ⟨progress, horder, h⟩ := releasing_released deps
  exact horder ▸ h.nodup

theorem lt_size_of_mem_released (h : gate ∈ deps.released.toList) : gate < deps.size := by
  obtain ⟨progress, horder, hrel⟩ := releasing_released deps
  exact hrel.lt_size gate (horder ▸ h)

theorem ordered_released (deps : Dependencies) : deps.Ordered deps.released.toList := by
  obtain ⟨progress, horder, h⟩ := releasing_released deps
  exact horder ▸ h.ordered

/-- A gate is released exactly when all of its sources are. -/
theorem mem_released_iff (h : gate < deps.size) : gate ∈ deps.released.toList ↔
    ∀ source, deps.Feeds source gate → source ∈ deps.released.toList := by
  obtain ⟨progress, horder, hrel⟩ := releasing_released deps
  have hiff := hrel.released gate h
  rw [hrel.waiting gate h, List.count_nil, Nat.add_zero, List.countP_eq_zero, horder] at hiff
  rw [hiff]
  refine forall₂_congr (fun source _ => ?_)
  simp

end Dependencies

end Netlist
