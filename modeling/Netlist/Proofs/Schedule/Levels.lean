/-
Module: Netlist.Proofs.Schedule.Levels
Layer: Proofs
Purpose: A schedule goes down level by level. A gate that no gate supplies is at level zero, and any other
  gate is one level below the deepest gate that supplies it. Gates have their turns in the order of their
  release, and a gate is released in the turn of the last gate that supplies it. So of two gates the later
  one waits for something that comes no sooner than anything the earlier one waits for, and from this alone
  the levels along a schedule never go up again.
Imports: Netlist.Proofs.Schedule.Loops
Main exports: Dependencies.level, Dependencies.Levels, Dependencies.InTurn, Dependencies.InTurn.notify,
  Dependencies.Releases.inTurn, Dependencies.InTurn.level_le, Dependencies.schedule_levelised
-/
import Netlist.Proofs.Schedule.Loops

namespace Netlist

namespace Dependencies

variable {deps : Dependencies} {order : List Nat}

/-- The depth of a gate as far as `rounds` steps back show it: zero for a gate that waits for none, and
    otherwise one more than the largest depth among the gates that it waits for. -/
def depth (deps : Dependencies) : Nat → Nat → Nat
  | 0, _ => 0
  | rounds + 1, gate =>
    ((deps.sourcesOf gate).map (fun source => depth deps rounds source + 1)).max?.getD 0

/-- The level of a gate. No chain of gates that wait for each other is longer than there are gates. -/
def level (deps : Dependencies) (gate : Nat) : Nat :=
  deps.depth deps.size gate

/-- What levels are, told by which gates supply which. -/
structure Levels (supplies : Nat → Nat → Prop) (level : Nat → Nat) : Prop where
  /-- A gate that no gate supplies is at level zero. -/
  zero : ∀ gate, (∀ source, ¬ supplies source gate) → level gate = 0
  /-- Any other gate is below every gate that supplies it, -/
  below : ∀ source gate, supplies source gate → level source < level gate
  /-- and below one of them by one level only. -/
  next : ∀ gate, (∃ source, supplies source gate) →
    ∃ source, supplies source gate ∧ level gate = level source + 1

/-!
### Levels of gates that can be ordered
-/

theorem depth_eq_zero {gate : Nat} (h : deps.sourcesOf gate = []) (rounds : Nat) :
    deps.depth rounds gate = 0 := by
  cases rounds with
  | zero => rfl
  | succ rounds => simp [depth, h]

/-- The depth of a gate that something feeds is one more than that of the deepest gate that feeds it. -/
theorem depth_succ_eq_iff {rounds gate n : Nat} (hfed : ∃ source, deps.Feeds source gate) :
    deps.depth (rounds + 1) gate = n ↔
      (∃ source, deps.Feeds source gate ∧ n = deps.depth rounds source + 1) ∧
        ∀ source, deps.Feeds source gate → deps.depth rounds source < n := by
  rcases hfed with ⟨source, hsource⟩
  have hne : (deps.sourcesOf gate).map (fun source => deps.depth rounds source + 1) ≠ [] := by
    rw [ne_eq, List.map_eq_nil_iff]
    exact List.ne_nil_of_mem hsource
  rcases Option.isSome_iff_exists.1 (List.isSome_max?_of_ne_nil hne) with ⟨largest, hlargest⟩
  have hiff : largest = n ↔ ((deps.sourcesOf gate).map
      (fun source => deps.depth rounds source + 1)).max? = some n := by
    rw [hlargest, Option.some.injEq]
  rw [depth, hlargest, Option.getD_some, hiff, List.max?_eq_some_iff, List.mem_map,
    List.forall_mem_map]
  apply and_congr
  · apply exists_congr
    intro source
    exact and_congr_right' eq_comm
  · exact Iff.rfl

/-- Once there are more rounds than gates before a gate, more of them do not change its depth. -/
theorem Ordered.depth_eq (h : deps.Ordered order) {gate rounds more : Nat} (hgate : gate ∈ order)
    (hrounds : order.idxOf gate < rounds) (hmore : order.idxOf gate < more) :
    deps.depth rounds gate = deps.depth more gate := by
  induction rounds generalizing gate more with
  | zero => omega
  | succ rounds ih =>
      cases more with
      | zero => omega
      | succ more =>
          rw [depth, depth]
          apply congrArg (fun depths => (List.max? depths).getD 0)
          apply List.map_congr_left
          intro source hfeeds
          -- what feeds the gate comes before it, so one round less is enough
          have hlt := h.idxOf_lt hgate hfeeds
          have hsource : source ∈ order := by
            rw [← List.idxOf_lt_length_iff]
            exact hlt.trans (List.idxOf_lt_length_iff.2 hgate)
          have hfewer : deps.depth rounds source = deps.depth more source :=
            ih hsource (by omega) (by omega)
          rw [hfewer]

/-- The levels of gates that can all be ordered are what levels should be. -/
theorem Ordered.levels (h : deps.Ordered order) (hperm : order.Perm (List.range deps.size)) :
    Levels deps.Feeds deps.level := by
  have hmem : ∀ {gate : Nat}, gate < deps.size → gate ∈ order := by
    intro gate hgate
    rw [hperm.mem_iff]
    exact List.mem_range.2 hgate
  have hlength : order.length = deps.size := by
    rw [hperm.length_eq, List.length_range]
  -- a gate that something feeds has as its level what one round more gives it
  have hsucc : ∀ {source gate : Nat}, deps.Feeds source gate →
      deps.depth (deps.size + 1) gate = deps.level gate := by
    intro source gate hfeeds
    have hgate := hmem hfeeds.lt_size
    have hlt := List.idxOf_lt_length_iff.2 hgate
    apply h.depth_eq hgate
    · omega
    · omega
  constructor
  · intro gate hnone
    apply depth_eq_zero
    rw [List.eq_nil_iff_forall_not_mem]
    exact hnone
  · intro source gate hfeeds
    have hdepth := (depth_succ_eq_iff ⟨source, hfeeds⟩).1 (hsucc hfeeds)
    exact hdepth.2 source hfeeds
  · intro gate hsome
    rcases hsome with ⟨source, hfeeds⟩
    exact ((depth_succ_eq_iff ⟨source, hfeeds⟩).1 (hsucc hfeeds)).1

/-- There is only one way to give levels to gates that can all be ordered. -/
theorem Levels.unique {level other : Nat → Nat} (hlevel : Levels deps.Feeds level)
    (hother : Levels deps.Feeds other) (h : deps.Ordered order)
    (hall : ∀ gate < deps.size, gate ∈ order) : other = level := by
  -- along the order, since what feeds a gate comes before it
  have hbefore : ∀ n gate, order.idxOf gate < n → other gate = level gate := by
    intro n
    induction n with
    | zero =>
        intro gate hn
        omega
    | succ n ih =>
        intro gate hn
        by_cases hsome : ∃ source, deps.Feeds source gate
        · have hsources : ∀ source, deps.Feeds source gate → other source = level source := by
            intro source hfeeds
            have hlt := h.idxOf_lt (hall gate hfeeds.lt_size) hfeeds
            apply ih
            omega
          rcases hlevel.next gate hsome with ⟨source, hfeeds, heq⟩
          rcases hother.next gate hsome with ⟨source', hfeeds', heq'⟩
          have hle := hother.below source gate hfeeds
          have hle' := hlevel.below source' gate hfeeds'
          rw [hsources source hfeeds] at hle
          rw [hsources source' hfeeds'] at heq'
          omega
        · have hnone : ∀ source, ¬ deps.Feeds source gate := not_exists.1 hsome
          rw [hlevel.zero gate hnone, hother.zero gate hnone]
  funext gate
  exact hbefore (order.idxOf gate + 1) gate (Nat.lt_succ_self _)

/-!
### No gate overtakes another
-/

/-- Of two gates of an order, the later one waits for a gate that comes no sooner than any gate that the
    earlier one waits for. -/
def InTurn (deps : Dependencies) (order : List Nat) : Prop :=
  ∀ gate ∈ order, ∀ later ∈ order, order.idxOf gate ≤ order.idxOf later →
    ∀ source, deps.Feeds source gate →
      ∃ last, deps.Feeds last later ∧ order.idxOf source ≤ order.idxOf last

theorem inTurn_of_sources_empty (h : ∀ gate ∈ order, deps.sourcesOf gate = []) :
    deps.InTurn order := by
  intro gate hgate later _ _ source hfeeds
  rw [Feeds, h gate hgate] at hfeeds
  cases hfeeds

/-- A gate can be added at the end if it waits for a gate that comes no sooner than any gate that it or an
    earlier gate waits for. -/
theorem InTurn.concat {gate last : Nat} (h : deps.InTurn order) (hnew : gate ∉ order)
    (hfeeds : deps.Feeds last gate) (hlast : last ∈ order)
    (hsources : ∀ g ∈ order ++ [gate], ∀ source, deps.Feeds source g →
      source ∈ order ∧ order.idxOf source ≤ order.idxOf last) :
    deps.InTurn (order ++ [gate]) := by
  intro g hg later hlater hle source hsource
  rcases hsources g hg source hsource with ⟨hmem, hsourceLe⟩
  rw [List.idxOf_append_of_mem hmem]
  rcases List.mem_append.1 hlater with hlater | hlater
  · -- the added gate comes after all others, so the earlier gate is one of them as well
    have hg : g ∈ order := by
      rcases List.mem_append.1 hg with hg | hg
      · exact hg
      · cases List.mem_singleton.1 hg
        rw [List.idxOf_append_of_notMem hnew, List.idxOf_append_of_mem hlater] at hle
        have hlt := List.idxOf_lt_length_iff.2 hlater
        omega
    rw [List.idxOf_append_of_mem hg, List.idxOf_append_of_mem hlater] at hle
    rcases h g hg later hlater hle source hsource with ⟨other, hother, hotherLe⟩
    refine ⟨other, hother, ?_⟩
    rw [List.idxOf_append_of_mem
      (hsources later (List.mem_append_left _ hlater) other hother).1]
    exact hotherLe
  · cases List.mem_singleton.1 hlater
    refine ⟨last, hfeeds, ?_⟩
    rw [List.idxOf_append_of_mem hlast]
    exact hsourceLe

/-!
### The release keeps to it
-/

variable {done todo front : List Nat} {progress : Progress} {gate current : Nat}

/-- Whatever feeds a released gate has had its turn. -/
theorem Releasing.source_done (h : Releasing deps done todo progress)
    (hgate : gate ∈ progress.order.toList) {source : Nat} (hfeeds : deps.Feeds source gate) :
    source ∈ done := by
  have hlt := h.lt_size gate hgate
  have hleft := (h.released gate hlt).1 hgate
  rw [h.waiting gate hlt] at hleft
  have hzero := List.countP_eq_zero.1 (Nat.eq_zero_of_add_eq_zero_right hleft) source hfeeds
  simpa using hzero

theorem feeds_of_mem_consumersOf (h : gate ∈ deps.consumersOf current) : deps.Feeds current gate := by
  have hcount : (deps.consumersOf current).count gate = (deps.sourcesOf gate).count current :=
    count_consumersOf (lt_size_of_mem_consumersOf h)
  rw [Feeds, ← List.count_pos_iff, ← hcount, List.count_pos_iff]
  exact h

/-- In a front part of an order, the last gate has the largest position. -/
theorem idxOf_le_last {last : Nat} (hnodup : order.Nodup) (hfront : front ++ [last] <+: order)
    {source : Nat} (hsource : source ∈ front ++ [last]) :
    order.idxOf source ≤ order.idxOf last := by
  have hlast : last ∉ front := by
    have hnodup' := hnodup.sublist hfront.sublist
    rw [← List.concat_eq_append] at hnodup'
    exact ((List.nodup_concat front last).1 hnodup').1
  have hlt := List.idxOf_lt_length_iff.2 hsource
  rw [List.length_append, List.length_singleton] at hlt
  rw [← hfront.idxOf_eq_of_mem hsource, ← hfront.idxOf_eq_of_mem (by simp),
    List.idxOf_append_of_notMem hlast, List.idxOf_cons_self]
  omega

/-- One notification by the gate whose turn it is lets no gate overtake another. -/
theorem InTurn.notify (h : deps.InTurn progress.order.toList)
    (hreleasing : Releasing deps (front ++ [current]) (gate :: todo) progress)
    (hfront : front ++ [current] <+: progress.order.toList) (hgate : gate < deps.size)
    (hfeeds : deps.Feeds current gate) : deps.InTurn (notify progress gate).order.toList := by
  by_cases hone : progress.left gate = 1
  · -- the gate is released: everything that it and the gates before it wait for has had its turn
    rw [order_notify_of_eq hone]
    have hnotified := releasing_notify hreleasing hgate
    have hnew : gate ∉ progress.order.toList := by
      rw [hreleasing.released gate hgate, hone]
      exact Nat.one_ne_zero
    apply h.concat hnew hfeeds (hreleasing.done_subset (by simp))
    intro g hg source hsource
    rw [← order_notify_of_eq hone] at hg
    have hdone := hnotified.source_done hg hsource
    exact ⟨hreleasing.done_subset hdone, idxOf_le_last hreleasing.nodup hfront hdone⟩
  · rw [order_notify_of_ne hone]
    exact h

/-- So do all notifications of a turn. -/
theorem InTurn.foldl_notify (h : deps.InTurn progress.order.toList)
    (hreleasing : Releasing deps (front ++ [current]) todo progress)
    (hfront : front ++ [current] <+: progress.order.toList)
    (htodo : ∀ gate ∈ todo, deps.Feeds current gate) :
    deps.InTurn (todo.foldl Dependencies.notify progress).order.toList := by
  induction todo generalizing progress with
  | nil => exact h
  | cons gate rest ih =>
      have hfeeds := htodo gate List.mem_cons_self
      apply ih
      · exact h.notify hreleasing hfront hfeeds.lt_size hfeeds
      · exact releasing_notify hreleasing hfeeds.lt_size
      · exact hfront.trans (order_prefix_notify progress gate)
      · intro other hother
        exact htodo other (List.mem_cons_of_mem gate hother)

/-- And so does a whole turn. -/
theorem InTurn.turn {next : Nat} (h : deps.InTurn progress.order.toList)
    (hreleasing : Releasing deps (progress.order.toList.take next) [] progress)
    (hnext : progress.order[next]? = some gate) :
    deps.InTurn ((deps.consumers.getD gate #[]).foldl Dependencies.notify progress).order.toList := by
  have hlist : progress.order.toList[next]? = some gate := by simpa using hnext
  rcases List.getElem?_eq_some_iff.1 hlist with ⟨hlt, hget⟩
  have htake : progress.order.toList.take (next + 1) =
      progress.order.toList.take next ++ [gate] := by
    rw [List.take_succ_eq_append_getElem hlt, hget]
  have hbegin := hreleasing.begin_next hnext
  have hfront := List.take_prefix (next + 1) progress.order.toList
  rw [htake] at hbegin hfront
  rw [← Array.foldl_toList, getD_consumers (hreleasing.lt_size gate (List.mem_of_getElem? hlist))]
  apply h.foldl_notify hbegin hfront
  intro other hother
  exact feeds_of_mem_consumersOf hother

/-- The whole release lets no gate overtake another, and only adds gates at the end. -/
theorem Releases.inTurn {next : Nat} {last : Progress}
    (hreleases : Releases deps.consumers next progress last)
    (hreleasing : Releasing deps (progress.order.toList.take next) [] progress)
    (h : deps.InTurn progress.order.toList) :
    deps.InTurn last.order.toList ∧ progress.order.toList <+: last.order.toList := by
  induction hreleases with
  | ended idle => exact ⟨h, List.prefix_refl _⟩
  | @turn next gate progress last ready _ ih =>
      rcases ih (hreleasing.turn ready) (h.turn hreleasing ready) with ⟨hlast, hmore⟩
      refine ⟨hlast, List.IsPrefix.trans ?_ hmore⟩
      have hlist : progress.order.toList[next]? = some gate := by simpa using ready
      rw [← Array.foldl_toList,
        getD_consumers (hreleasing.lt_size gate (List.mem_of_getElem? hlist))]
      apply (releasing_foldl_notify (hreleasing.begin_next ready) ?_).2
      intro other hother
      exact lt_size_of_mem_consumersOf hother

theorem mem_initial_iff : gate ∈ deps.initial.order.toList ↔
    gate < deps.size ∧ deps.sourcesOf gate = [] := by
  simp [initial]

/-- A schedule begins with the gates that wait for nothing, and no gate overtakes another. -/
theorem inTurn_of_schedule (h : deps.schedule = .ok order) :
    deps.InTurn order ∧ deps.initial.order.toList <+: order := by
  have hinitial : deps.InTurn deps.initial.order.toList := by
    apply inTurn_of_sources_empty
    intro gate hgate
    exact (mem_initial_iff.1 hgate).2
  rw [schedule] at h
  split at h
  · cases h
    exact (releases_release deps.size 0 (releasing_initial deps) (Nat.le_refl _)).inTurn
      (releasing_initial deps) hinitial
  · cases h

/-!
### Levels along a schedule
-/

/-- Where no gate overtakes another, levels never go up again: to each gate that the earlier gate waits for
    there is one that the later gate waits for, no sooner and so, by induction, no less deep. -/
theorem InTurn.level_le {level : Nat → Nat} (h : deps.InTurn order) (hordered : deps.Ordered order)
    (hlevel : Levels deps.Feeds level) {gate later : Nat} (hgate : gate ∈ order)
    (hlater : later ∈ order) (hle : order.idxOf gate ≤ order.idxOf later) :
    level gate ≤ level later := by
  have hbefore : ∀ n gate later, gate ∈ order → later ∈ order →
      order.idxOf gate ≤ order.idxOf later → order.idxOf later < n → level gate ≤ level later := by
    intro n
    induction n with
    | zero =>
        intro gate later _ _ _ hn
        omega
    | succ n ih =>
        intro gate later hgate hlater hle hn
        by_cases hsome : ∃ source, deps.Feeds source gate
        · rcases hlevel.next gate hsome with ⟨source, hfeeds, heq⟩
          rcases h gate hgate later hlater hle source hfeeds with ⟨last, hlast, hsourceLe⟩
          have hlt := hordered.idxOf_lt hlater hlast
          have hlen := List.idxOf_lt_length_iff.2 hlater
          have hdeep : level source ≤ level last := by
            apply ih source last
            · exact List.idxOf_lt_length_iff.1 (by omega)
            · exact List.idxOf_lt_length_iff.1 (by omega)
            · exact hsourceLe
            · omega
          have hbelow := hlevel.below last later hlast
          omega
        · rw [hlevel.zero gate (not_exists.1 hsome)]
          exact Nat.zero_le _
  exact hbefore _ gate later hgate hlater hle (Nat.lt_succ_self _)

/-- The gates of level zero are those that wait for nothing. -/
theorem Levels.eq_zero_iff {level : Nat → Nat} (h : Levels deps.Feeds level) :
    level gate = 0 ↔ deps.sourcesOf gate = [] := by
  rw [List.eq_nil_iff_forall_not_mem]
  constructor
  · intro hzero source hfeeds
    have hbelow := h.below source gate hfeeds
    omega
  · intro hnone
    exact h.zero gate hnone

/-- The gates of level zero stand at the front of a schedule, by index. -/
theorem filter_level_zero {level : Nat → Nat} (hlevel : Levels deps.Feeds level)
    (hinitial : deps.initial.order.toList <+: order) (hperm : order.Perm (List.range deps.size)) :
    order.filter (fun gate => level gate = 0) = deps.initial.order.toList := by
  rcases hinitial with ⟨rest, rfl⟩
  have hnodup : (deps.initial.order.toList ++ rest).Nodup := hperm.nodup_iff.2 List.nodup_range
  have hfront : deps.initial.order.toList.filter (fun gate => level gate = 0) =
      deps.initial.order.toList := by
    rw [List.filter_eq_self]
    intro gate hgate
    exact decide_eq_true (hlevel.eq_zero_iff.2 (mem_initial_iff.1 hgate).2)
  have hrest : rest.filter (fun gate => level gate = 0) = [] := by
    rw [List.filter_eq_nil_iff]
    intro gate hgate hzero
    -- a gate that waits for nothing is in front already
    apply List.disjoint_of_nodup_append hnodup (mem_initial_iff.2 ?_) hgate
    have hmem := hperm.mem_iff.1 (List.mem_append_right deps.initial.order.toList hgate)
    exact ⟨List.mem_range.1 hmem, hlevel.eq_zero_iff.1 (of_decide_eq_true hzero)⟩
  rw [List.filter_append, hfront, hrest, List.append_nil]

/-- A schedule is levelised. Let level zero be that of the gates that no gate supplies, and let any other
    gate be one level below the deepest gate that supplies it; this gives each gate one level. Along a
    schedule the levels never go up again, and the gates of level zero stand in ascending order. So every
    gate of a level has its turn before any gate of a deeper level. -/
theorem schedule_levelised (gates : Array Gate) (producer : Array (Option Nat)) {order : List Nat}
    (h : (ofGates gates producer).schedule = .ok order) :
    let level := (ofGates gates producer).level
    (∀ other, Levels (Supplies gates producer) other ↔ other = level) ∧
    (order.map level).Pairwise (· ≤ ·) ∧
    (order.filter (fun gate => level gate = 0)).Pairwise (· < ·) ∧
    ∀ gate deeper, gate < gates.size → deeper < gates.size → level gate < level deeper →
      order.idxOf gate < order.idxOf deeper := by
  intro level
  rcases schedule_ok h with ⟨hperm, hordered⟩
  rcases inTurn_of_schedule h with ⟨hturn, hinitial⟩
  have hlevel : Levels (ofGates gates producer).Feeds level := hordered.levels hperm
  have hmem : ∀ {gate : Nat}, gate < (ofGates gates producer).size → gate ∈ order := by
    intro gate hgate
    rw [hperm.mem_iff]
    exact List.mem_range.2 hgate
  have hnodup : order.Nodup := hperm.nodup_iff.2 List.nodup_range
  refine ⟨?_, ?_, ?_, ?_⟩
  · intro other
    rw [← feeds_eq_supplies]
    constructor
    · intro hother
      exact hlevel.unique hother hordered (fun gate hgate => hmem hgate)
    · intro heq
      rw [heq]
      exact hlevel
  · rw [List.pairwise_map, List.pairwise_iff_getElem]
    intro i j hi hj hij
    apply hturn.level_le hordered hlevel (List.getElem_mem hi) (List.getElem_mem hj)
    rw [hnodup.idxOf_getElem, hnodup.idxOf_getElem]
    exact hij.le
  · rw [filter_level_zero hlevel hinitial hperm]
    simpa [initial] using List.pairwise_lt_range.filter _
  · intro gate deeper hgate hdeeper hlt
    rw [← size_ofGates gates producer] at hgate hdeeper
    by_contra hle
    have hback := hturn.level_le hordered hlevel (hmem hdeeper) (hmem hgate) (Nat.not_lt.1 hle)
    exact Nat.lt_irrefl _ (hlt.trans_le hback)

/-- Four gates on three levels: the last reads the first, which reads the third, and the second. -/
def threeLevels : Array Gate :=
  #[⟨.not, [.net ⟨3⟩], ⟨1⟩, 1⟩, ⟨.not, [.net ⟨0⟩], ⟨2⟩, 1⟩, ⟨.copy, [.net ⟨0⟩], ⟨3⟩, 1⟩,
    ⟨.and, [.net ⟨1⟩, .net ⟨2⟩], ⟨4⟩, 1⟩]

/-- The first gate has its turn after the two gates of level zero, though its index is the lowest. -/
theorem threeLevels_levelised :
    (ofGates threeLevels #[none, some 0, some 1, some 2, some 3]).schedule = .ok [1, 2, 0, 3] ∧
    ([1, 2, 0, 3].map (ofGates threeLevels #[none, some 0, some 1, some 2, some 3]).level) =
      [0, 0, 1, 2] ∧
    Levels (Supplies threeLevels #[none, some 0, some 1, some 2, some 3])
      (ofGates threeLevels #[none, some 0, some 1, some 2, some 3]).level := by
  have hok : (ofGates threeLevels #[none, some 0, some 1, some 2, some 3]).schedule =
      .ok [1, 2, 0, 3] := by
    decide +kernel
  refine ⟨hok, by decide +kernel, ?_⟩
  exact ((schedule_levelised threeLevels #[none, some 0, some 1, some 2, some 3] hok).1 _).2 rfl

end Dependencies

end Netlist
