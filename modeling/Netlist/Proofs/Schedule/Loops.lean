/-
Module: Netlist.Proofs.Schedule.Loops
Layer: Proofs
Purpose: The scheduler as two loops that nothing stops from outside: gates take their turns while one of
  them is ready, and the walk goes on while no gate comes up again. The definitions count down turns and
  steps; here it is shown that the loops end by themselves before the count does, with the same answer, and
  that the walk never comes to a gate whose sources have all been released. The answer is then told by the
  table of producers alone: an order of all gates if no gate waits for itself, and else a cycle.
Imports: Netlist.Proofs.Guarded.Schedule
Main exports: Dependencies.Releases, Dependencies.Walks, Dependencies.Ends, Dependencies.ends_iff,
  Dependencies.Supplies, Dependencies.schedule_sorts_or_finds_cycle
-/
import Netlist.Proofs.Guarded.Schedule

namespace Netlist

namespace Dependencies

open Relation (TransGen)

variable {deps : Dependencies}

/-!
### One end
-/

theorem Releases.deterministic {consumers : Array (Array Nat)} {next : Nat}
    {progress first second : Progress} (one : Releases consumers next progress first)
    (two : Releases consumers next progress second) : first = second := by
  induction one with
  | ended idle =>
      cases two with
      | ended => rfl
      | turn ready _ => simp [idle] at ready
  | turn ready _ ih =>
      cases two with
      | ended idle => simp [idle] at ready
      | turn other rest =>
          rw [ready] at other
          cases other
          exact ih rest

theorem Walks.deterministic {isReleased : Nat → Bool} {path first second : List Nat} {gate : Nat}
    (one : Walks deps isReleased path gate first) (two : Walks deps isReleased path gate second) :
    first = second := by
  induction one with
  | closed again =>
      cases two with
      | closed => rfl
      | next new _ _ => exact absurd again new
  | next new left _ ih =>
      cases two with
      | closed again => exact absurd again new
      | next _ other rest =>
          rw [left] at other
          cases other
          exact ih rest

/-!
### The scheduler as a whole
-/

/-- What the scheduler ends with: the order of release if all gates have been released, and else the cycle
    on which a walk from the first gate that is left closes. -/
inductive Ends (deps : Dependencies) : Except (List Nat) (List Nat) → Prop where
  | ordered {last : Progress} (released : Releases deps.consumers 0 deps.initial last)
      (all : last.order.size = deps.size) : Ends deps (.ok last.order.toList)
  | looped {last : Progress} {start : Nat} {cycle : List Nat}
      (released : Releases deps.consumers 0 deps.initial last)
      (some_left : last.order.size ≠ deps.size)
      (first : (List.range deps.size).find? (fun gate => !last.order.contains gate) = some start)
      (walk : Walks deps last.order.contains [] start cycle) : Ends deps (.error cycle)

theorem Ends.deterministic {first second : Except (List Nat) (List Nat)} (one : deps.Ends first)
    (two : deps.Ends second) : first = second := by
  cases one with
  | ordered released all =>
      cases two with
      | ordered released' all' => rw [released.deterministic released']
      | looped released' some_left =>
          rw [released.deterministic released'] at all
          exact absurd all some_left
  | looped released some_left found walk =>
      cases two with
      | ordered released' all' =>
          rw [released.deterministic released'] at some_left
          exact absurd all' some_left
      | looped released' some_left' found' walk' =>
          cases released.deterministic released'
          rw [found] at found'
          cases found'
          rw [walk.deterministic walk']

/-- The marks are those of the released gates. -/
theorem marked_eq_contains (deps : Dependencies) : deps.marked = deps.released.contains := by
  funext gate
  rw [Bool.eq_iff_iff, Array.contains_iff_mem, ← Array.mem_toList_iff]
  by_cases hgate : gate < deps.size
  · exact marked_iff hgate
  · constructor
    · intro hmarked
      have hsize : (deps.released.foldl (fun marks g => marks.setIfInBounds g true)
          (Array.replicate deps.size false)).size = deps.size := by
        rw [size_foldl_mark, Array.size_replicate]
      have hnone := Array.getElem?_eq_none (hsize.trans_le (Nat.not_lt.1 hgate))
      simp [marked, Array.getD_eq_getD_getElem?, hnone] at hmarked
    · intro hmem
      exact absurd (lt_size_of_mem_released hmem) hgate

theorem ends_schedule (hrange : deps.InRange) : deps.Ends deps.schedule := by
  have hreleases : Releases deps.consumers 0 deps.initial
      (release deps.consumers deps.size 0 deps.initial) :=
    releases_release deps.size 0 (releasing_initial deps) (Nat.le_refl _)
  rw [schedule]
  by_cases hall : deps.released.size = deps.size
  · rw [if_pos hall]
    exact .ordered hreleases hall
  · rw [if_neg hall]
    rcases exists_walks hrange hall with ⟨start, hfind, -, hwalks⟩
    rw [marked_eq_contains] at hfind hwalks
    exact .looped hreleases hall hfind hwalks

/-- The loops end, and with the schedule. -/
theorem ends_iff (hrange : deps.InRange) {answer : Except (List Nat) (List Nat)} :
    deps.Ends answer ↔ deps.schedule = answer := by
  constructor
  · intro h
    exact (ends_schedule hrange).deterministic h
  · intro h
    rw [← h]
    exact ends_schedule hrange

/-!
### Gates and producers
-/

/-- By a table of producers, the gate at `source` supplies an operand net of the gate at `gate`. -/
def Supplies (gates : Array Gate) (producer : Array (Option Nat)) (source gate : Nat) : Prop :=
  ∃ g, gates[gate]? = some g ∧ ∃ id ∈ g.inputNets, producer[id.index]? = some (some source)

theorem feeds_eq_supplies (gates : Array Gate) (producer : Array (Option Nat)) :
    (ofGates gates producer).Feeds = Supplies gates producer := by
  funext source gate
  apply propext
  rw [Feeds, sourcesOf, ofGates, Supplies, Array.getD_eq_getD_getElem?, Array.getElem?_map]
  cases hgate : gates[gate]? with
  | none => simp
  | some g =>
      have hentry : ∀ id : NetId, producer.getD id.index none = some source ↔
          producer[id.index]? = some (some source) := by
        intro id
        rw [Array.getD_eq_getD_getElem?]
        cases producer[id.index]? <;> simp
      simp only [Option.map_some, Option.getD_some, List.mem_filterMap, hentry, Option.some.injEq,
        exists_eq_left']

/-- The scheduler sorts the gates or finds a cycle. Let the gates read nets of the table of producers, and
    let the table name gates only; it need not be the table of what the gates drive. Then no access is out
    of range and no counter goes below zero; the loops end, with one answer, and the walk never comes to a
    gate whose sources have all been released. There is an order exactly when no gate supplies itself over
    other gates. The order has every gate once and each after all gates that supply it, by however many of
    its operands; otherwise the answer is a cycle of different gates, of which each supplies the next and
    the last supplies the first. -/
theorem schedule_sorts_or_finds_cycle (gates : Array Gate) (producer : Array (Option Nat))
    (hnets : ∀ gate ∈ gates.toList, ∀ id ∈ gate.inputNets, id.index < producer.size)
    (hentries : ∀ g, some g ∈ producer.toList → g < gates.size) :
    let deps := ofGates gates producer
    let supplies := Supplies gates producer
    Guarded.schedule gates producer = some deps.schedule ∧
    (∀ answer, deps.Ends answer ↔ deps.schedule = answer) ∧
    ((∃ order, deps.schedule = .ok order) ↔ ∀ gate, ¬ TransGen supplies gate gate) ∧
    (∀ order, deps.schedule = .ok order → order.Perm (List.range gates.size) ∧
      ∀ source gate, supplies source gate → order.idxOf source < order.idxOf gate) ∧
    (∀ cycle, deps.schedule = .error cycle → ∃ hne : cycle ≠ [], cycle.Nodup ∧
      cycle.IsChain supplies ∧ supplies (cycle.getLast hne) (cycle.head hne)) := by
  intro deps supplies
  have hfeeds : deps.Feeds = supplies := feeds_eq_supplies gates producer
  have hsize : deps.size = gates.size := size_ofGates gates producer
  have hrange : deps.InRange := by
    intro source gate h
    rw [hfeeds] at h
    rcases h with ⟨g, -, id, -, hid⟩
    rw [hsize]
    apply hentries
    exact Array.mem_toList_iff.2 (Array.mem_of_getElem? hid)
  refine ⟨Guarded.schedule_eq_some hnets hrange, fun answer => ends_iff hrange, ?_, ?_, ?_⟩
  · rw [← hfeeds]
    exact schedule_ok_iff hrange
  · intro order horder
    rcases schedule_ok horder with ⟨hperm, hordered⟩
    rw [hsize] at hperm
    refine ⟨hperm, ?_⟩
    intro source gate h
    rw [← hfeeds] at h
    have hgate : gate ∈ order := by
      rw [hperm.mem_iff, List.mem_range, ← hsize]
      exact h.lt_size
    exact hordered.idxOf_lt hgate h
  · intro cycle hcycle
    rcases schedule_error hrange hcycle with ⟨hne, hnodup, hchain, hcloses⟩
    rw [hfeeds] at hchain hcloses
    exact ⟨hne, hnodup, hchain, hcloses⟩

/-- Three gates, of which the first reads the net of the second twice. -/
def twiceRead : Array Gate :=
  #[⟨.and, [.net ⟨1⟩, .net ⟨1⟩], ⟨2⟩, 1⟩, ⟨.not, [.net ⟨0⟩], ⟨1⟩, 1⟩, ⟨.copy, [.net ⟨2⟩], ⟨3⟩, 1⟩]

/-- The gates are sorted by the table of what they drive; by a table that names the last gate as the
    producer of what the second one reads, they form a cycle. -/
theorem twiceRead_sorted_or_cycle :
    (ofGates twiceRead #[none, some 1, some 0, some 2]).schedule = .ok [1, 0, 2] ∧
    (∀ gate, ¬ TransGen (Supplies twiceRead #[none, some 1, some 0, some 2]) gate gate) ∧
    (ofGates twiceRead #[some 2, some 1, some 0, none]).Ends (.error [2, 1, 0]) ∧
    ¬ ∀ gate, ¬ TransGen (Supplies twiceRead #[some 2, some 1, some 0, none]) gate gate := by
  have hsorted : (ofGates twiceRead #[none, some 1, some 0, some 2]).schedule = .ok [1, 0, 2] := by
    decide +kernel
  have hlooped : (ofGates twiceRead #[some 2, some 1, some 0, none]).schedule = .error [2, 1, 0] := by
    decide +kernel
  have horder := schedule_sorts_or_finds_cycle twiceRead #[none, some 1, some 0, some 2]
    (by decide +kernel) (by simp [twiceRead])
  have hcycle := schedule_sorts_or_finds_cycle twiceRead #[some 2, some 1, some 0, none]
    (by decide +kernel) (by simp [twiceRead])
  refine ⟨hsorted, horder.2.2.1.1 ⟨_, hsorted⟩, (hcycle.2.1 _).2 hlooped, ?_⟩
  intro hacyclic
  rcases hcycle.2.2.1.2 hacyclic with ⟨order, hok⟩
  rw [hlooped] at hok
  cases hok

end Dependencies

end Netlist
