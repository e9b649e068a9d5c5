/-
Module: Netlist.Proofs.Guarded.Schedule
Layer: Proofs
Purpose: Ordering gates with guarded accesses. The tables of producers, of waiting operands, of consumers
  and of marks are all read and written by position, the counters of waiting operands go down, and the
  trail of the walk that finds a cycle is split at a position kept on the way. What the release maintains
  shows that a counter is never taken below zero, even where a gate reads one net more than once, and that
  only gates come up; what the walk maintains shows that every position it has kept is on its trail.
Imports: Netlist.Proofs.Drivers, Netlist.Proofs.Guarded.Access
Main exports: Guarded.dependencies, Guarded.linkAll, Guarded.notify, Guarded.release, Guarded.Trail,
  Guarded.walk, Guarded.schedule, Guarded.schedule_eq_some
-/
import Netlist.Proofs.Drivers
import Netlist.Proofs.Guarded.Access

namespace Netlist

namespace Guarded

/-!
### Dependencies
-/

/-- For each gate, the gates whose outputs it reads, looked up in the table of producers. -/
def dependencies (gates : Array Gate) (producer : Array (Option Nat)) : Option Dependencies := do
  let sources ← gates.toList.mapM (fun gate => do
    let found ← gate.inputNets.mapM (fun net => producer[net.index]?)
    some (found.filterMap id))
  some ⟨sources.toArray⟩

/-- What is known about the dependencies before the release. -/
structure Links where
  waiting : Array Nat
  consumers : Array (Array Nat)

/-- Enters that a gate waits for another. -/
def link (consumer : Nat) (links : Links) (source : Nat) : Option Links := do
  let consumers ← update links.consumers source (·.push consumer)
  let waiting ← update links.waiting consumer (· + 1)
  some ⟨waiting, consumers⟩

/-- Enters all dependencies, gate by gate. -/
def linkAll (deps : Dependencies) : Option Links :=
  (List.range deps.size).foldlM
    (fun links consumer => do
      let sources ← deps.sources[consumer]?
      sources.foldlM (link consumer) links)
    ⟨Array.replicate deps.size 0, Array.replicate deps.size #[]⟩

/-!
### Releasing gates
-/

/-- The gates that wait for nothing, by index. -/
def ready (waiting : Array Nat) : Option (Array Nat) :=
  (List.range waiting.size).foldlM
    (fun order gate => do
      let left ← waiting[gate]?
      some (if left = 0 then order.push gate else order))
    #[]

/-- One operand of a gate has got its value. -/
def notify (progress : Dependencies.Progress) (gate : Nat) : Option Dependencies.Progress := do
  let before ← progress.waiting[gate]?
  let left ← sub before 1
  let waiting ← store progress.waiting gate left
  some (if left = 0 then ⟨waiting, progress.order.push gate⟩ else ⟨waiting, progress.order⟩)

/-- Gives the released gates their turns. -/
def release (consumers : Array (Array Nat)) :
    Nat → Nat → Dependencies.Progress → Option Dependencies.Progress
  | 0, _, progress => some progress
  | turns + 1, next, progress =>
    match progress.order[next]? with
    | none => some progress
    | some gate => do
      let waiting ← consumers[gate]?
      let progress ← waiting.toList.foldlM notify progress
      release consumers turns (next + 1) progress

def mark (size : Nat) (order : Array Nat) : Option (Array Bool) :=
  order.toList.foldlM (fun marks gate => store marks gate true) (Array.replicate size false)

/-!
### Finding a cycle
-/

/-- The gates that a walk has passed. -/
structure Trail where
  /-- The gates, first gate first. -/
  passed : List Nat := []
  /-- Under each of these gates its position, latest gate first. -/
  seen : List (Nat × Nat) := []

/-- The trail after one more gate has been passed. -/
def Trail.pass (trail : Trail) (gate : Nat) : Trail where
  passed := trail.passed ++ [gate]
  seen := (gate, trail.passed.length) :: trail.seen

/-- Walks from a gate to gates it waits for that are not marked, until one comes up that has been seen. The
    trail is split at the position of this gate, and the part behind turned round. -/
def walk (deps : Dependencies) (marks : Array Bool) : Nat → Trail → Nat → Option (List Nat)
  | 0, trail, _ => some trail.passed
  | steps + 1, trail, gate =>
    match trail.seen.lookup gate with
    | some position => do
      let loop ← splitOff trail.passed position
      some loop.reverse
    | none => do
      let sources ← deps.sources[gate]?
      let left ← sources.findM? (fun source => do
        let marked ← marks[source]?
        some (!marked))
      match left with
      | some source => walk deps marks steps (trail.pass gate) source
      | none => some (trail.pass gate).passed

/-- A cycle among the gates that are not marked. -/
def cycle (deps : Dependencies) (marks : Array Bool) : Option (List Nat) := do
  let start ← (List.range deps.size).findM? (fun gate => do
    let marked ← marks[gate]?
    some (!marked))
  match start with
  | some start => walk deps marks (deps.size + 1) {} start
  | none => some []

/-- The evaluation order of all gates, or the gates on a cycle. -/
def schedule (gates : Array Gate) (producer : Array (Option Nat)) :
    Option (Except (List Nat) (List Nat)) := do
  let deps ← dependencies gates producer
  let links ← linkAll deps
  let order ← ready links.waiting
  let progress ← release links.consumers deps.size 0 ⟨links.waiting, order⟩
  let marks ← mark deps.size progress.order
  if progress.order.size = deps.size then some (.ok progress.order.toList)
  else do
    let gates ← cycle deps marks
    some (.error gates)

/-!
### Agreement on dependencies
-/

theorem dependencies_eq_some {gates : Array Gate} {producer : Array (Option Nat)}
    (h : ∀ gate ∈ gates.toList, ∀ id ∈ gate.inputNets, id.index < producer.size) :
    dependencies gates producer = some (.ofGates gates producer) := by
  have hsources : ∀ gate ∈ gates.toList,
      (gate.inputNets.mapM (fun net => producer[net.index]?) >>= fun found =>
        some (found.filterMap id)) =
        some (gate.inputNets.filterMap (fun net => producer.getD net.index none)) := by
    intro gate hgate
    have hfound : gate.inputNets.mapM (fun net => producer[net.index]?) =
        some (gate.inputNets.map (fun net => producer.getD net.index none)) :=
      mapM_eq_some (fun id hid => getElem?_eq_some_getD (h gate hgate id hid) none)
    rw [bind_eq hfound, List.filterMap_map]
    rfl
  rw [dependencies, bind_eq (mapM_eq_some hsources), Dependencies.ofGates, ← Array.toList_map]

section Deps

variable {deps : Dependencies}

theorem getElem?_sources {gate : Nat} (h : gate < deps.size) :
    deps.sources[gate]? = some (deps.sourcesOf gate) :=
  getElem?_eq_some_getD h []

/-- Entering one gate raises its counter once for each source. -/
theorem foldlM_link_eq_some (consumer : Nat) (sources : List Nat) (links : Links)
    (hconsumer : consumer < links.waiting.size)
    (hsources : ∀ source ∈ sources, source < links.consumers.size) :
    sources.foldlM (link consumer) links = some
      ⟨links.waiting.modify consumer (· + sources.length),
        sources.foldl (fun table source => table.modify source (·.push consumer)) links.consumers⟩ := by
  induction sources generalizing links with
  | nil =>
      have hsame : links.waiting.modify consumer (· + 0) = links.waiting := by
        apply Array.ext_getElem?
        intro i
        simp [Array.getElem?_modify]
      rw [List.length_nil, hsame]
      rfl
  | cons source rest ih =>
      have hlink : link consumer links source = some
          ⟨links.waiting.modify consumer (· + 1), links.consumers.modify source (·.push consumer)⟩ := by
        rw [link, bind_eq (update_eq_some (hsources source List.mem_cons_self) _),
          bind_eq (update_eq_some hconsumer _)]
      rw [List.foldlM_cons, bind_eq hlink, ih]
      · simp only [List.foldl_cons, List.length_cons, Option.some.injEq, Links.mk.injEq, and_true]
        apply Array.ext_getElem?
        intro i
        simp only [Array.getElem?_modify]
        split
        · cases links.waiting[i]? <;> simp; omega
        · rfl
      · simpa using hconsumer
      · intro other hother
        simpa using hsources other (List.mem_cons_of_mem source hother)

/-- The counters after some gates have been entered: those of the gates entered have been raised. -/
theorem getElem?_foldl_raise (count : Nat → Nat) {gates : List Nat} (hnodup : gates.Nodup)
    (waiting : Array Nat) (i : Nat) :
    (gates.foldl (fun waiting gate => waiting.modify gate (· + count gate)) waiting)[i]? =
      waiting[i]?.map (· + if i ∈ gates then count i else 0) := by
  induction gates generalizing waiting with
  | nil => simp
  | cons gate rest ih =>
      obtain ⟨hgate, hrest⟩ := List.nodup_cons.1 hnodup
      rw [List.foldl_cons, ih hrest, Array.getElem?_modify]
      by_cases heq : gate = i
      · subst heq
        cases waiting[gate]? <;> simp [hgate]
      · simp [heq, Ne.symm heq]

theorem getElem?_initial {gate : Nat} (h : gate < deps.size) :
    deps.initial.waiting[gate]? = some (deps.sourcesOf gate).length := by
  rw [Dependencies.initial, Array.getElem?_map, getElem?_sources h]
  rfl

theorem foldl_raise_eq_initial (deps : Dependencies) :
    (List.range deps.size).foldl
        (fun waiting gate => waiting.modify gate (· + (deps.sourcesOf gate).length))
        (Array.replicate deps.size 0) = deps.initial.waiting := by
  have hsize : deps.initial.waiting.size = deps.size := (Dependencies.releasing_initial deps).size_waiting
  apply Array.ext_getElem?
  intro i
  rw [getElem?_foldl_raise _ List.nodup_range]
  by_cases hi : i < deps.size
  · rw [getElem?_initial hi]
    simp [hi]
  · have hnone : deps.initial.waiting[i]? = none := by
      apply Array.getElem?_eq_none
      rw [hsize]
      exact Nat.not_lt.1 hi
    rw [hnone]
    simp [hi]

theorem foldlM_enter_eq_some (hrange : deps.InRange) (gates : List Nat) (links : Links)
    (hgates : ∀ gate ∈ gates, gate < deps.size) (hwaiting : links.waiting.size = deps.size)
    (hconsumers : links.consumers.size = deps.size) :
    gates.foldlM (fun links consumer => do
        let sources ← deps.sources[consumer]?
        sources.foldlM (link consumer) links) links = some
      ⟨gates.foldl (fun waiting gate => waiting.modify gate (· + (deps.sourcesOf gate).length))
        links.waiting,
      gates.foldl (fun table gate => (deps.sourcesOf gate).foldl
        (fun table source => table.modify source (·.push gate)) table) links.consumers⟩ := by
  induction gates generalizing links with
  | nil => rfl
  | cons gate rest ih =>
      have hgate := hgates gate List.mem_cons_self
      have hlink := foldlM_link_eq_some gate (deps.sourcesOf gate) links (by rw [hwaiting]; exact hgate)
        (fun source hsource => by rw [hconsumers]; exact hrange source gate hsource)
      rw [List.foldlM_cons, bind_eq (getElem?_sources hgate), bind_eq hlink, ih]
      · rfl
      · exact fun g hg => hgates g (List.mem_cons_of_mem gate hg)
      · rw [Array.size_modify, hwaiting]
      · rw [Dependencies.size_enter, hconsumers]

/-- The links are the counters at the start of the release and the table of consumers. -/
theorem linkAll_eq_some (hrange : deps.InRange) :
    linkAll deps = some ⟨deps.initial.waiting, deps.consumers⟩ := by
  rw [linkAll, foldlM_enter_eq_some hrange _ _ (fun gate hgate => List.mem_range.1 hgate) (by simp)
    (by simp), foldl_raise_eq_initial]
  rfl

/-!
### Agreement on the release
-/

theorem foldl_push_eq (p : Nat → Bool) (l : List Nat) (order : Array Nat) :
    l.foldl (fun order gate => if p gate then order.push gate else order) order =
      order ++ (l.filter p).toArray := by
  induction l generalizing order with
  | nil => simp
  | cons gate rest ih =>
      rw [List.foldl_cons, ih]
      by_cases h : p gate = true
      · rw [if_pos h, List.filter_cons_of_pos h]
        simp
      · rw [if_neg h, List.filter_cons_of_neg h]

theorem ready_eq_some (deps : Dependencies) :
    ready deps.initial.waiting = some deps.initial.order := by
  have hloop : ready deps.initial.waiting = some ((List.range deps.size).foldl
      (fun order gate => if (deps.sourcesOf gate).isEmpty then order.push gate else order) #[]) := by
    rw [ready, (Dependencies.releasing_initial deps).size_waiting]
    apply foldlM_eq_some (fun rest _ => ∀ gate ∈ rest, gate < deps.size)
    · intro gate rest order hrest
      refine ⟨?_, fun g hg => hrest g (List.mem_cons_of_mem gate hg)⟩
      rw [bind_eq (getElem?_initial (hrest gate List.mem_cons_self))]
      simp only [List.length_eq_zero_iff, List.isEmpty_iff]
    · exact fun gate hgate => List.mem_range.1 hgate
  rw [hloop, foldl_push_eq (fun gate => (deps.sourcesOf gate).isEmpty)]
  simp [Dependencies.initial]

variable {done todo : List Nat} {progress : Dependencies.Progress} {gate : Nat}

/-- A gate that is notified still waits, so its counter can go down. -/
theorem notify_eq_some (h : Dependencies.Releasing deps done (gate :: todo) progress)
    (hgate : gate < deps.size) : notify progress gate = some (Dependencies.notify progress gate) := by
  have hlt : gate < progress.waiting.size := by
    rw [h.size_waiting]
    exact hgate
  have hpos : 1 ≤ progress.waiting.getD gate 0 := h.left_pos hgate
  rw [notify, bind_eq (getElem?_eq_some_getD hlt 0), bind_eq (sub_eq_some hpos),
    bind_eq (store_eq_some hlt _), Dependencies.notify]
  have hiff : progress.waiting.getD gate 0 - 1 = 0 ↔ progress.waiting.getD gate 0 = 1 := by
    omega
  simp only [hiff]

/-- A counter that is zero already cannot go down. -/
example : notify ⟨#[0], #[]⟩ 0 = none := rfl

theorem foldlM_notify_eq_some (h : Dependencies.Releasing deps done todo progress)
    (htodo : ∀ gate ∈ todo, gate < deps.size) :
    todo.foldlM notify progress = some (todo.foldl Dependencies.notify progress) := by
  apply foldlM_eq_some
    (fun todo progress => Dependencies.Releasing deps done todo progress ∧ ∀ gate ∈ todo, gate < deps.size)
  · rintro gate rest progress ⟨hrel, hlt⟩
    have hgate := hlt gate List.mem_cons_self
    exact ⟨notify_eq_some hrel hgate, Dependencies.releasing_notify hrel hgate,
      fun g hg => hlt g (List.mem_cons_of_mem gate hg)⟩
  · exact ⟨h, htodo⟩

theorem release_eq_some (turns next : Nat)
    (h : Dependencies.Releasing deps (progress.order.toList.take next) [] progress) :
    release deps.consumers turns next progress =
      some (Dependencies.release deps.consumers turns next progress) := by
  -- between two turns no gate is left to be notified, which is why the invariant has an empty list
  induction turns generalizing next progress with
  | zero => rfl
  | succ turns ih =>
      rw [release, Dependencies.release]
      cases hnext : progress.order[next]? with
      | none => rfl
      | some gate =>
          have hgate : gate < deps.size := by
            apply h.lt_size
            exact Array.mem_toList_iff.2 (Array.mem_of_getElem? hnext)
          have hconsumers : deps.consumers[gate]? = some (deps.consumers.getD gate #[]) :=
            getElem?_eq_some_getD (by rw [Dependencies.size_consumers]; exact hgate) #[]
          have hturn : (deps.consumers.getD gate #[]).toList.foldlM notify progress =
              some ((deps.consumers.getD gate #[]).foldl Dependencies.notify progress) := by
            rw [← Array.foldl_toList, Dependencies.getD_consumers hgate]
            exact foldlM_notify_eq_some (h.begin_next hnext)
              (fun g hg => Dependencies.lt_size_of_mem_consumersOf hg)
          simp only
          rw [bind_eq hconsumers, bind_eq hturn]
          exact ih (next + 1) (h.turn hnext)

theorem mark_eq_some {size : Nat} {order : Array Nat} (h : ∀ gate ∈ order.toList, gate < size) :
    mark size order = some (order.foldl (fun marks gate => marks.setIfInBounds gate true)
      (Array.replicate size false)) := by
  rw [mark, ← Array.foldl_toList]
  apply foldlM_eq_some_of_size
  · exact fun marks gate => Array.size_setIfInBounds
  · intro marks hmarks gate hgate
    apply store_eq_some
    rw [hmarks, Array.size_replicate]
    exact h gate hgate

/-!
### Agreement on cycles
-/

variable {marks : Array Bool}

theorem findM?_unmarked_eq_some {gates : List Nat} (h : ∀ gate ∈ gates, gate < marks.size) :
    gates.findM? (fun gate => do
        let marked ← marks[gate]?
        some (!marked)) = some (gates.find? (fun gate => !marks.getD gate false)) := by
  apply findM?_eq_some
  intro gate hgate
  rw [bind_eq (getElem?_eq_some_getD (h gate hgate) false)]

/-- A trail records a path: it has passed the gates of the path, which starts at the last one, and none of
    them twice, and it knows the position of each. -/
structure Trail.Records (trail : Trail) (path : List Nat) : Prop where
  passed_eq : trail.passed = path.reverse
  nodup : path.Nodup
  lookup_eq : ∀ gate, trail.seen.lookup gate = trail.passed.idxOf? gate

variable {trail : Trail} {path : List Nat} {position : Nat}

theorem Trail.records_nil : ({} : Trail).Records [] :=
  ⟨rfl, List.nodup_nil, fun _ => rfl⟩

theorem Trail.Records.lookup_eq_none_iff (h : trail.Records path) :
    trail.seen.lookup gate = none ↔ gate ∉ path := by
  rw [h.lookup_eq, List.idxOf?_eq_none_iff, h.passed_eq, List.mem_reverse]

theorem Trail.Records.pass (h : trail.Records path) (hnew : gate ∉ path) :
    (trail.pass gate).Records (gate :: path) where
  passed_eq := by
    rw [Trail.pass, h.passed_eq, List.reverse_cons]
  nodup := List.nodup_cons.2 ⟨hnew, h.nodup⟩
  lookup_eq := by
    intro other
    have hother : trail.seen.lookup other = trail.passed.findIdx? (· == other) := h.lookup_eq other
    rw [Trail.pass, List.lookup_cons, List.idxOf?, List.findIdx?_append, ← hother]
    by_cases heq : other = gate
    · subst heq
      simp [h.lookup_eq_none_iff.2 hnew]
    · rw [beq_false_of_ne heq]
      simp [Ne.symm heq]

/-- A gate that has been seen is on the path, and the trail can be split at its position: what comes off is
    this gate and the gates after it. -/
theorem Trail.Records.splitOff_eq_some (h : trail.Records path)
    (hseen : trail.seen.lookup gate = some position) :
    ∃ since before, path = since ++ gate :: before ∧ gate ∉ since ∧
      splitOff trail.passed position = some (gate :: since.reverse) := by
  rw [h.lookup_eq, List.idxOf?_eq_some_iff] at hseen
  rcases hseen with ⟨hlt, hget, -⟩
  have hdrop : trail.passed.drop position = gate :: trail.passed.drop (position + 1) := by
    rw [List.drop_eq_getElem_cons hlt, hget]
  have hpath : path = (trail.passed.drop (position + 1)).reverse ++
      gate :: (trail.passed.take position).reverse := by
    calc path = trail.passed.reverse := by rw [h.passed_eq, List.reverse_reverse]
      _ = (trail.passed.take position ++ gate :: trail.passed.drop (position + 1)).reverse := by
        rw [← hdrop, List.take_append_drop]
      _ = _ := by simp
  have hsince : gate ∉ (trail.passed.drop (position + 1)).reverse := by
    have hnodup := h.nodup
    rw [hpath] at hnodup
    exact fun hmem => List.disjoint_of_nodup_append hnodup hmem List.mem_cons_self
  refine ⟨_, _, hpath, hsince, ?_⟩
  rw [splitOff, if_pos hlt.le, hdrop, List.reverse_reverse]

theorem walk_eq_some (hrange : deps.InRange) (hmarks : marks.size = deps.size) (steps : Nat)
    (hrecords : trail.Records path) (hgate : gate < deps.size) :
    walk deps marks steps trail gate =
      some (Dependencies.walk deps (fun g => marks.getD g false) steps path gate) := by
  induction steps generalizing trail path gate with
  | zero => rw [walk, Dependencies.walk, hrecords.passed_eq]
  | succ steps ih =>
      rw [walk, Dependencies.walk]
      cases hseen : trail.seen.lookup gate with
      | some position =>
          rcases hrecords.splitOff_eq_some hseen with ⟨since, before, rfl, hsince, hsplit⟩
          simp only
          rw [bind_eq hsplit, if_pos (by simp), Dependencies.takeWhile_append_cons hsince,
            List.reverse_cons, List.reverse_reverse]
      | none =>
          have hnew := hrecords.lookup_eq_none_iff.1 hseen
          have hpassed := hrecords.pass hnew
          have hsources : ∀ source ∈ deps.sourcesOf gate, source < marks.size := by
            intro source hsource
            rw [hmarks]
            exact hrange source gate hsource
          simp only
          rw [bind_eq (getElem?_sources hgate), bind_eq (findM?_unmarked_eq_some hsources),
            if_neg (by simpa using hnew)]
          cases hsource : (deps.sourcesOf gate).find? (fun source => !marks.getD source false) with
          | none => rw [hpassed.passed_eq]
          | some source => exact ih hpassed (hrange source gate (List.mem_of_find?_eq_some hsource))

theorem cycle_eq_some (hrange : deps.InRange) (order : Array Nat) :
    cycle deps (order.foldl (fun marks gate => marks.setIfInBounds gate true)
      (Array.replicate deps.size false)) = some (deps.cycle order) := by
  have hmarks : (order.foldl (fun marks gate => marks.setIfInBounds gate true)
      (Array.replicate deps.size false)).size = deps.size := by
    rw [Dependencies.size_foldl_mark, Array.size_replicate]
  rw [Dependencies.cycle]
  generalize order.foldl (fun marks gate => marks.setIfInBounds gate true)
    (Array.replicate deps.size false) = marks at hmarks ⊢
  have hgates : ∀ gate ∈ List.range deps.size, gate < marks.size := by
    intro gate hgate
    rw [hmarks]
    exact List.mem_range.1 hgate
  rw [cycle, bind_eq (findM?_unmarked_eq_some hgates)]
  cases hstart : (List.range deps.size).find? (fun g => !marks.getD g false) with
  | none => rfl
  | some start =>
      have hlt : start < deps.size := List.mem_range.1 (List.mem_of_find?_eq_some hstart)
      exact walk_eq_some hrange hmarks _ Trail.records_nil hlt

/-!
### Agreement on the schedule
-/

theorem schedule_eq_some {gates : Array Gate} {producer : Array (Option Nat)}
    (hinputs : ∀ gate ∈ gates.toList, ∀ id ∈ gate.inputNets, id.index < producer.size)
    (hrange : (Dependencies.ofGates gates producer).InRange) :
    schedule gates producer = some (Dependencies.ofGates gates producer).schedule := by
  rw [schedule, bind_eq (dependencies_eq_some hinputs)]
  generalize Dependencies.ofGates gates producer = deps at hrange ⊢
  have hrelease := release_eq_some deps.size 0 (Dependencies.releasing_initial deps)
  have hreleased : (Dependencies.release deps.consumers deps.size 0 deps.initial).order =
      deps.released := rfl
  have hlt : ∀ gate ∈ deps.released.toList, gate < deps.size :=
    fun gate hgate => Dependencies.lt_size_of_mem_released hgate
  rw [bind_eq (linkAll_eq_some hrange), bind_eq (ready_eq_some deps), bind_eq hrelease, hreleased,
    bind_eq (mark_eq_some hlt), Dependencies.schedule]
  by_cases hall : deps.released.size = deps.size
  · simp only [if_pos hall]
  · simp only [if_neg hall]
    rw [bind_eq (cycle_eq_some hrange deps.released)]

end Deps

end Guarded

end Netlist
