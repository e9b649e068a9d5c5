/-
Module: Netlist.Proofs.Console.Dialogue
Layer: Proofs
Purpose: Dialogues as sessions. The program takes the turns of a dialogue one by one and reads an item only
  where it prompts for one. On everything that is typed these turns come to the session of the circuit: the
  same ending and the same simulator after the same steps, with the same text printed.
Imports: Netlist.Console.Dialogue, Netlist.Proofs.Calls
Main exports: Console.Dialogue.play, Console.Dialogue.Leads, Console.Dialogue.Leads.deterministic,
  Console.Session.ending_run_ne, Console.Dialogue.leads_run, Console.Dialogue.leads_complete
-/
import Netlist.Console.Dialogue
import Netlist.Proofs.Calls

namespace Netlist.Console

/-- A session before which some text has been printed. -/
def Session.after (text : String) (session : Session) : Session :=
  { session with printed := text ++ session.printed }

@[simp] theorem Session.after_empty (session : Session) : session.after "" = session := by
  rw [Session.after, String.empty_append]

theorem Session.after_append (first second : String) (session : Session) :
    session.after (first ++ second) = (session.after second).after first := by
  rw [Session.after, Session.after, Session.after, String.append_assoc]

namespace Dialogue

/-!
### Turns on what is typed
-/

/-- One turn, and the items that are left after it. A prompt is printed first, and takes an item. -/
def play (limit : Option Nat) (dialogue : Dialogue) (input : List Item) : Turn × List Item :=
  match dialogue.action limit with
  | .take turn => (turn, input)
  | .prompt pin turn =>
    let heard := turn input.head?
    ({ heard with printed := promptText pin ++ heard.printed }, input.tail)

/-- Taking one turn after the other comes to a session. -/
inductive Leads (limit : Option Nat) : Dialogue → List Item → Session → Prop where
  | ends {dialogue : Dialogue} {input rest : List Item} {turn : Turn} {ending : Ending}
      (played : dialogue.play limit input = (turn, rest)) (ended : turn.next = .error ending) :
      Leads limit dialogue input ⟨ending, turn.printed, dialogue.simulator, dialogue.steps⟩
  | goes {dialogue next : Dialogue} {input rest : List Item} {turn : Turn} {session : Session}
      (played : dialogue.play limit input = (turn, rest)) (onward : turn.next = .ok next)
      (later : Leads limit next rest session) :
      Leads limit dialogue input (session.after turn.printed)

variable {limit : Option Nat} {dialogue : Dialogue} {input : List Item} {session : Session}

theorem Leads.deterministic {other : Session} (one : dialogue.Leads limit input session)
    (two : dialogue.Leads limit input other) : session = other := by
  induction one generalizing other with
  | ends played ended =>
      cases two with
      | ends played' ended' =>
          cases played.symm.trans played'
          cases ended.symm.trans ended'
          rfl
      | goes played' onward' =>
          cases played.symm.trans played'
          cases ended.symm.trans onward'
  | goes played onward later ih =>
      cases two with
      | ends played' ended' =>
          cases played.symm.trans played'
          cases onward.symm.trans ended'
      | goes played' onward' later' =>
          cases played.symm.trans played'
          cases onward.symm.trans onward'
          rw [ih later']

/-- Below the limit a dialogue asks for a pin, or runs a step when there is none. -/
theorem action_of_below (hbelow : ∀ n ∈ limit, dialogue.steps < n) :
    dialogue.action limit =
      match dialogue.pins with
      | [] => .take dialogue.step
      | pin :: pins => .prompt pin (dialogue.hear pin pins) := by
  have hlimit : ¬ limit.any (· ≤ dialogue.steps) = true := by
    simpa [Option.any_eq_true] using hbelow
  exact if_neg hlimit

theorem play_cons (hbelow : ∀ n ∈ limit, dialogue.steps < n) {pin : Pin} {pins : List Pin}
    (hpins : dialogue.pins = pin :: pins) (input : List Item) :
    dialogue.play limit input =
      ({ dialogue.hear pin pins input.head? with
        printed := promptText pin ++ (dialogue.hear pin pins input.head?).printed }, input.tail) := by
  rw [play, action_of_below hbelow, hpins]

theorem play_nil (hbelow : ∀ n ∈ limit, dialogue.steps < n) (hpins : dialogue.pins = [])
    (input : List Item) : dialogue.play limit input = (dialogue.step, input) := by
  rw [play, action_of_below hbelow, hpins]

/-- At the limit a dialogue is over. -/
theorem play_of_reached (hlimit : limit = some dialogue.steps) (input : List Item) :
    dialogue.play limit input = ({ next := .error .running }, input) := by
  have hreached : limit.any (· ≤ dialogue.steps) = true := by simp [hlimit]
  rw [play, action, if_pos hreached]

/-!
### Rounds
-/

/-- Where a reply leads: with an answer wherever the answer leads, and otherwise to the end of the session. -/
def Replies {α : Type} (dialogue : Dialogue) (answers : α → Session → Prop) : Reply α → Session → Prop
  | .answer value, session => answers value session
  | .ended, session => session = ⟨.inputEnded, "\n", dialogue.simulator, dialogue.steps⟩
  | .failed cause, session =>
      session = ⟨.failed (.terminal cause), "", dialogue.simulator, dialogue.steps⟩

/-- A prompt for a pin that is closed by what is read. -/
theorem leads_of_closed (hbelow : ∀ n ∈ limit, dialogue.steps < n) {pin : Pin} {pins : List Pin}
    (hpins : dialogue.pins = pin :: pins) {reply : Reply Word}
    (hheard : Console.hear pin input.head? = .closed reply)
    (h : dialogue.Replies
      (fun value => { dialogue with inputs := dialogue.inputs.insert pin.name value, pins }.Leads limit
        input.tail) reply session) :
    dialogue.Leads limit input (session.after (promptText pin)) := by
  have hplay := play_cons hbelow hpins input
  rw [hear, hheard] at hplay
  cases reply with
  | answer value =>
      rw [← String.append_empty (s := promptText pin)]
      exact .goes hplay rfl h
  | ended | failed =>
      rw [Replies] at h
      rw [h]
      exact .ends hplay rfl

/-- The prompts for one pin. -/
theorem leads_askPin (hbelow : ∀ n ∈ limit, dialogue.steps < n) {pin : Pin} {pins : List Pin}
    (hpins : dialogue.pins = pin :: pins) (input : List Item)
    (h : dialogue.Replies
      (fun value => { dialogue with inputs := dialogue.inputs.insert pin.name value, pins }.Leads limit
        (askPin pin input).rest) (askPin pin input).reply session) :
    dialogue.Leads limit input (session.after (askPin pin input).printed) := by
  induction input with
  | nil => exact leads_of_closed hbelow hpins rfl h
  | cons item rest ih =>
      rw [askPin] at h ⊢
      cases hheard : Console.hear pin (some item) with
      | closed reply =>
          rw [hheard] at h
          exact leads_of_closed hbelow hpins hheard h
      | again event =>
          rw [hheard] at h
          have hplay := play_cons hbelow hpins (item :: rest)
          rw [List.head?_cons, hear, hheard] at hplay
          simp only
          rw [Session.after_append, ← String.append_empty (s := promptText pin)]
          exact .goes hplay rfl (ih h)

/-- The prompts for all pins that are still to be asked for. -/
theorem leads_askPins {pins : List Pin} (hbelow : ∀ n ∈ limit, dialogue.steps < n)
    (hpins : dialogue.pins = pins) (input : List Item)
    (h : dialogue.Replies
      (fun inputs => { dialogue with inputs, pins := [] }.Leads limit
        (askPins dialogue.inputs pins input).rest) (askPins dialogue.inputs pins input).reply session) :
    dialogue.Leads limit input (session.after (askPins dialogue.inputs pins input).printed) := by
  induction pins generalizing dialogue input with
  | nil =>
      rw [askPins, Session.after_empty]
      have hsame : { dialogue with pins := [] } = dialogue := by rw [← hpins]
      rw [askPins, Replies, hsame] at h
      exact h
  | cons pin pins ih =>
      rw [askPins] at h ⊢
      cases hreply : (askPin pin input).reply with
      | answer value =>
          rw [hreply] at h
          simp only at h ⊢
          rw [Session.after_append]
          apply leads_askPin hbelow hpins
          rw [hreply]
          have hnext : ∀ n ∈ limit, { dialogue with
              inputs := dialogue.inputs.insert pin.name value, pins }.steps < n := hbelow
          exact ih hnext rfl _ h
      | ended | failed =>
          rw [hreply] at h
          apply leads_askPin hbelow hpins
          rw [hreply]
          exact h

/-- Once all pins have their values, the next turn runs the step. -/
theorem leads_of_step_error {sim : Simulator} {steps : Nat} {inputs : InputVector} {fault : StepError}
    (hbelow : ∀ n ∈ limit, steps < n) (hstep : sim.step inputs = .error fault) :
    Leads limit ⟨sim, steps, inputs, []⟩ input ⟨.failed (.step fault), "", sim, steps⟩ := by
  have hplay : play limit ⟨sim, steps, inputs, []⟩ input = _ := play_nil hbelow rfl input
  simp only [step, hstep] at hplay
  exact .ends hplay rfl

theorem leads_of_step_ok {sim next : Simulator} {steps : Nat} {inputs : InputVector}
    {outputs : OutputVector} (hbelow : ∀ n ∈ limit, steps < n)
    (hstep : sim.step inputs = .ok (outputs, next))
    (hlater : (start next (steps + 1)).Leads limit input session) :
    Leads limit ⟨sim, steps, inputs, []⟩ input (session.after (outputText outputs)) := by
  have hplay : play limit ⟨sim, steps, inputs, []⟩ input = _ := play_nil hbelow rfl input
  simp only [step, hstep] at hplay
  exact .goes hplay rfl hlater

/-!
### Sessions
-/

/-- A number of rounds, from a number of steps on. They end the session, unless they end at the limit. -/
theorem leads_run (sim : Simulator) (steps rounds : Nat)
    (hwithin : ∀ n ∈ limit, steps + rounds ≤ n)
    (hrunning : (Session.run sim rounds input).ending = .running → limit = some (steps + rounds)) :
    (start sim steps).Leads limit input
      { Session.run sim rounds input with steps := steps + (Session.run sim rounds input).steps } := by
  induction rounds generalizing sim steps input with
  | zero => exact .ends (play_of_reached (hrunning rfl) input) rfl
  | succ rounds ih =>
      have hbelow : ∀ n ∈ limit, steps < n := by
        intro n hn
        have hle := hwithin n hn
        omega
      -- the prompts of the round; what is left to show is where the reply leads
      have hasked : ∀ session, (start sim steps).Replies
          (fun inputs => Leads limit ⟨sim, steps, inputs, []⟩ (ask sim.circuit.inputs input).rest)
          (ask sim.circuit.inputs input).reply session →
          (start sim steps).Leads limit input (session.after (ask sim.circuit.inputs input).printed) :=
        fun _ => leads_askPins hbelow rfl input
      rw [Session.run] at hrunning ⊢
      cases hreply : (ask sim.circuit.inputs input).reply with
      | ended =>
          rw [hreply] at hasked
          exact hasked ⟨.inputEnded, "\n", sim, steps⟩ rfl
      | failed cause =>
          rw [hreply] at hasked
          have hall := hasked ⟨.failed (.terminal cause), "", sim, steps⟩ rfl
          rw [Session.after, String.append_empty] at hall
          exact hall
      | answer inputs =>
          rw [hreply] at hasked
          simp only [hreply] at hrunning ⊢
          cases hstep : sim.step inputs with
          | error fault =>
              have hall := hasked _ (leads_of_step_error hbelow hstep)
              rw [Session.after, String.append_empty] at hall
              exact hall
          | ok result =>
              rcases result with ⟨outputs, next⟩
              rw [hstep] at hrunning
              have hsteps : steps + (rounds + 1) = steps + 1 + rounds := by omega
              rw [hsteps] at hwithin hrunning
              have hall := hasked _ (leads_of_step_ok hbelow hstep (ih next (steps + 1) hwithin hrunning))
              rw [← Session.after_append, Nat.add_right_comm] at hall
              exact hall

end Dialogue

namespace Session

/-- An answer takes an item. -/
theorem length_rest_askPin_lt {pin : Pin} {input : List Item} {value : Word}
    (h : (askPin pin input).reply = .answer value) : (askPin pin input).rest.length < input.length := by
  induction input with
  | nil => cases h
  | cons item rest ih =>
      rw [askPin] at h ⊢
      cases hheard : hear pin (some item) with
      | closed reply => exact Nat.lt_succ_self _
      | again event =>
          rw [hheard] at h
          exact Nat.lt_succ_of_lt (ih h)

theorem length_rest_askPins_le {pins : List Pin} {inputs values : InputVector} {input : List Item}
    (h : (askPins inputs pins input).reply = .answer values) :
    (askPins inputs pins input).rest.length + pins.length ≤ input.length := by
  induction pins generalizing inputs input with
  | nil => exact Nat.le_refl _
  | cons pin pins ih =>
      rw [askPins] at h ⊢
      cases hreply : (askPin pin input).reply with
      | ended | failed =>
          rw [hreply] at h
          cases h
      | answer value =>
          rw [hreply] at h
          have hlater := ih h
          have hfirst := length_rest_askPin_lt hreply
          simp only [List.length_cons]
          omega

/-- With more rounds than items a session does not stop for lack of rounds, when there are pins to ask for. -/
theorem ending_run_ne {sim : Simulator} (hpins : sim.circuit.inputs ≠ []) {rounds : Nat}
    {input : List Item} (h : input.length < rounds) : (Session.run sim rounds input).ending ≠ .running := by
  induction rounds generalizing sim input with
  | zero => exact absurd h (Nat.not_lt_zero _)
  | succ rounds ih =>
      rw [Session.run]
      simp only
      cases hreply : (ask sim.circuit.inputs input).reply with
      | ended | failed => simp
      | answer inputs =>
          simp only
          cases hstep : sim.step inputs with
          | error fault => simp
          | ok result =>
              rcases result with ⟨outputs, next⟩
              rcases Simulator.step_eq_ok hstep with ⟨_, -, -, hcircuit, -⟩
              have hlength := length_rest_askPins_le hreply
              have hpos := List.length_pos_of_ne_nil hpins
              rw [← hcircuit] at hpins
              apply ih hpins
              rw [ask]
              omega

theorem rounds_le (c : Circuit) {limit : Option Nat} (input : List Item) :
    ∀ n ∈ limit, rounds c limit input ≤ n := by
  rintro n ⟨⟩
  rw [rounds]
  split
  · exact Nat.le_refl n
  · exact Nat.min_le_left n _

/-- A session is followed for long enough: it stops for lack of rounds only at its limit. -/
theorem limit_of_running {sim : Simulator} {limit : Option Nat} {input : List Item}
    (h : sim.circuit.inputs ≠ [] ∨ limit ≠ none)
    (hrunning : (Session.run sim (rounds sim.circuit limit input) input).ending = .running) :
    limit = some (rounds sim.circuit limit input) := by
  cases limit with
  | none =>
      have hpins := h.resolve_right (fun hlimit => hlimit rfl)
      exact absurd hrunning (ending_run_ne hpins (Nat.lt_succ_self _))
  | some n =>
      rw [rounds] at hrunning ⊢
      by_cases hpins : sim.circuit.inputs = []
      · simp [hpins]
      · simp only [List.isEmpty_eq_false_iff.2 hpins, Bool.false_eq_true, if_false] at hrunning ⊢
        rcases Nat.le_total n (input.length + 1) with hfew | hmany
        · rw [Nat.min_eq_left hfew]
        · rw [Nat.min_eq_right hmany] at hrunning
          exact absurd hrunning (ending_run_ne hpins (Nat.lt_succ_self _))

end Session

/-- The turns of a dialogue on everything that is typed come to the session. A circuit without input pins
    needs a limit for this; without one its session never ends. -/
theorem Dialogue.leads_complete (sim : Simulator) (limit : Option Nat) (bytes : List UInt8)
    (h : sim.circuit.inputs ≠ [] ∨ limit ≠ none) :
    (start sim 0).Leads limit (items bytes) (Session.complete sim limit bytes) := by
  have hlead := leads_run sim 0 (Session.rounds sim.circuit limit (items bytes))
    (by simpa using Session.rounds_le sim.circuit (items bytes))
    (by simpa using Session.limit_of_running h)
  rw [Nat.zero_add] at hlead
  exact hlead

end Netlist.Console
