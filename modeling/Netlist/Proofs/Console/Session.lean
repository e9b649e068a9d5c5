/-
Module: Netlist.Proofs.Console.Session
Layer: Proofs
Purpose: Sessions as runs. The words of a text decode into complete rounds of answers and an unfinished one,
  in which input ends. A session runs one step per complete round, as far as its limit allows, with the
  values of the answers; it prints the prompts of each round with the outputs of its step, and then the
  prompts of the unfinished round unless it has reached its limit.
Imports: Netlist.Console.Session, Netlist.Proofs.Assembly, Netlist.Proofs.Calls, Netlist.Proofs.Console.Asking
Main exports: Console.Decoding, Console.Decoding.Reads, Console.Decoding.exists_reads, Console.transcript,
  Console.Session.run_of_reads, Description.session_refines_run
-/
import Netlist.Console.Session
import Netlist.Proofs.Assembly
import Netlist.Proofs.Calls
import Netlist.Proofs.Console.Asking

namespace Netlist.Console

/-!
### Rounds
-/

/-- Words as values of pins, round after round. -/
structure Decoding where
  /-- The answers of the complete rounds. -/
  rounds : List (List Answer)
  /-- The answers of the round in which input ends. -/
  begun : List Answer
  /-- The pin at which input ends. -/
  pin : Pin
  /-- The words that were no value for this pin. -/
  refused : List (List Char)
deriving Repr, DecidableEq

namespace Decoding

/-- A decoding reads words in order and pin by pin. Every word belongs to the first pin that has no value
    yet in its round, and is taken unless it is no value for this pin. -/
structure Reads (decoding : Decoding) (pins : List Pin) (tokens : List (List Char)) : Prop where
  tokens_eq : tokens =
    (decoding.rounds.flatten ++ decoding.begun).flatMap Answer.tokens ++ decoding.refused
  complete : ∀ round ∈ decoding.rounds, round.map Answer.pin = pins
  unfinished : decoding.begun.map Answer.pin ++ [decoding.pin] <+: pins
  correct : ∀ answer ∈ decoding.rounds.flatten ++ decoding.begun, answer.Correct
  refused : ∀ token ∈ decoding.refused, value? decoding.pin token = none

variable {decoding : Decoding} {pins : List Pin} {tokens : List (List Char)} {round : List Answer}
  {rounds : List (List Answer)} {begun : List Answer} {pin : Pin} {refused : List (List Char)}

/-- A complete round in front. -/
theorem Reads.cons (h : Reads ⟨rounds, begun, pin, refused⟩ pins tokens)
    (hpins : round.map Answer.pin = pins) (hcorrect : ∀ answer ∈ round, answer.Correct) :
    Reads ⟨round :: rounds, begun, pin, refused⟩ pins (round.flatMap Answer.tokens ++ tokens) where
  tokens_eq := by
    rw [h.tokens_eq]
    simp
  complete := List.forall_mem_cons.2 ⟨hpins, h.complete⟩
  unfinished := h.unfinished
  correct := by
    rw [List.flatten_cons, List.append_assoc]
    exact List.forall_mem_append.2 ⟨hcorrect, h.correct⟩
  refused := h.refused

/-- Without its first round, a decoding reads the words after it. -/
theorem Reads.of_cons (h : Reads ⟨round :: rounds, begun, pin, refused⟩ pins tokens) :
    ∃ later, tokens = round.flatMap Answer.tokens ++ later ∧ round.map Answer.pin = pins ∧
      (∀ answer ∈ round, answer.Correct) ∧ Reads ⟨rounds, begun, pin, refused⟩ pins later := by
  have hcomplete := List.forall_mem_cons.1 h.complete
  have hcorrect := h.correct
  rw [List.flatten_cons, List.append_assoc, List.forall_mem_append] at hcorrect
  refine ⟨_, ?_, hcomplete.1, hcorrect.1, rfl, hcomplete.2, h.unfinished, hcorrect.2, h.refused⟩
  rw [h.tokens_eq]
  simp

/-- A complete round takes a word, because there is a pin. -/
theorem tokens_pos (hpins : pins ≠ []) (hround : round.map Answer.pin = pins) :
    0 < (round.flatMap Answer.tokens).length := by
  cases round with
  | nil => exact absurd hround.symm hpins
  | cons answer round => simp [Answer.tokens]

theorem Reads.length_rounds_le (h : decoding.Reads pins tokens) (hpins : pins ≠ []) :
    decoding.rounds.length ≤ tokens.length := by
  rcases decoding with ⟨rounds, begun, pin, refused⟩
  induction rounds generalizing tokens with
  | nil => exact Nat.zero_le _
  | cons round rounds ih =>
      rcases h.of_cons with ⟨later, rfl, hround, -, hlater⟩
      have hpos := tokens_pos hpins hround
      have hle := ih hlater
      simp only [List.length_cons, List.length_append] at hle ⊢
      omega

/-- Words can be decoded, whatever they are. -/
theorem exists_reads (hpins : pins ≠ []) (tokens : List (List Char)) :
    ∃ decoding : Decoding, decoding.Reads pins tokens := by
  induction hlength : tokens.length using Nat.strong_induction_on generalizing tokens with
  | _ length ih =>
      rcases exists_answers pins tokens with ⟨round, later, hround, hcorrect, rfl⟩ |
        ⟨begun, pin, refused, hprefix, hcorrect, hrefused, rfl⟩
      · have hshorter : later.length < length := by
          have hpos := tokens_pos hpins hround
          rw [← hlength, List.length_append]
          omega
        rcases ih _ hshorter later rfl with ⟨decoding, hreads⟩
        exact ⟨_, hreads.cons hround hcorrect⟩
      · refine ⟨⟨[], begun, pin, refused⟩, rfl, ?_, hprefix, hcorrect, hrefused⟩
        intro round hmem
        cases hmem

end Decoding

/-!
### The vector of a round
-/

/-- The values of a round, by the names of the pins. -/
def vector (round : List Answer) : InputVector :=
  .ofList (round.map (fun answer => (answer.pin.name, answer.value)))

variable {round : List Answer} {inputs : InputVector}

theorem get?_addAnswers_of_notMem {name : String} (h : name ∉ round.map (fun answer => answer.pin.name)) :
    (addAnswers inputs round).get? name = inputs.get? name := by
  induction round generalizing inputs with
  | nil => rfl
  | cons answer round ih =>
      rw [List.map_cons, List.mem_cons, not_or] at h
      refine (ih h.2).trans ?_
      rw [SortedMap.get?_insert, if_neg (by simpa using h.1)]

/-- An answer stays, because no other answer of the round is for its pin. -/
theorem get?_addAnswers (hnames : (round.map (fun answer => answer.pin.name)).Nodup) {answer : Answer}
    (hmem : answer ∈ round) : (addAnswers inputs round).get? answer.pin.name = some answer.value := by
  induction round generalizing inputs with
  | nil => cases hmem
  | cons first round ih =>
      rw [List.map_cons, List.nodup_cons] at hnames
      rcases List.mem_cons.1 hmem with rfl | hmem
      · refine (get?_addAnswers_of_notMem hnames.1).trans ?_
        rw [SortedMap.get?_insert, if_pos (by simp)]
      · exact ih hnames.2 hmem

/-- Only pins with an answer get a value. -/
theorem mem_entries_addAnswers {e : String × Word} (h : e ∈ (addAnswers inputs round).entries) :
    e.1 ∈ round.map (fun answer => answer.pin.name) ∨ e ∈ inputs.entries := by
  induction round generalizing inputs with
  | nil => exact .inr h
  | cons answer round ih =>
      rw [List.map_cons, List.mem_cons]
      rcases ih h with hlater | hfirst
      · exact .inl (.inr hlater)
      · rcases SortedMap.mem_insertEntry hfirst with rfl | hbefore
        · exact .inl (.inl rfl)
        · exact .inr hbefore

/-- A step accepts the values of a complete round. -/
theorem exists_step {sim : Simulator} (hround : round.map Answer.pin = sim.circuit.inputs)
    (hnames : (sim.circuit.inputs.map Pin.name).Nodup) (hcorrect : ∀ answer ∈ round, answer.Correct) :
    ∃ output next, sim.step (vector round) = .ok (output, next) ∧ next.circuit = sim.circuit := by
  have hsame : sim.circuit.inputs.map Pin.name = round.map (fun answer => answer.pin.name) := by
    rw [← hround, List.map_map]
    rfl
  have haccepts : Accepts (vector round) sim.circuit.inputs
      (round.map (fun answer => (answer.pin.net, answer.value))) := by
    rw [← hround]
    unfold Accepts
    rw [List.forall₂_map_left_iff, List.forall₂_map_right_iff, List.forall₂_same]
    intro answer hmem
    rcases Option.filter_eq_some_iff.1 (hcorrect answer hmem).taken with ⟨-, hfits⟩
    exact ⟨rfl, get?_addAnswers (hsame ▸ hnames) hmem, by simpa using hfits⟩
  have hmatch := matchInputs_of_accepts haccepts (by
    intro e he
    rw [hsame]
    rcases mem_entries_addAnswers he with hname | hnone
    · exact hname
    · cases hnone)
  unfold Simulator.step
  rw [hmatch]
  exact ⟨_, _, rfl, rfl⟩

/-!
### Sessions
-/

/-- What is printed for complete rounds: the prompts of a round, and then the outputs of its step. -/
def transcript (rounds : List (List Answer)) (outputs : List OutputVector) : String :=
  String.join (List.zipWith (fun round output => answersText round ++ (output.text ++ "\n")) rounds outputs)

/-- What is printed for the round in which input ends: its prompts, up to the one that meets the end, and a
    newline. -/
def Decoding.lastText (decoding : Decoding) : String :=
  answersText decoding.begun ++ (prompts decoding.pin decoding.refused ++ promptText decoding.pin) ++ "\n"

namespace Session

variable {sim : Simulator} {decoding : Decoding} {tokens : List (List Char)}

/-- In the round in which input ends, the end is met. -/
theorem ask_of_unfinished {begun : List Answer} {pin : Pin} {refused : List (List Char)} {pins : List Pin}
    (h : Decoding.Reads ⟨[], begun, pin, refused⟩ pins tokens) :
    (ask pins (tokens.map .word)).Shows .ended
      (answersText begun ++ (prompts pin refused ++ promptText pin)) [] := by
  rcases h.unfinished with ⟨others, hpins⟩
  have hend := askPin_of_all_refused h.refused
  have hlater : (askPins (addAnswers .empty begun) (pin :: others) (refused.map .word)).Shows .ended
      (prompts pin refused ++ promptText pin) [] := by
    unfold askPins
    simp only [hend.reply_eq]
    exact ⟨rfl, hend.printed_eq, hend.rest_eq⟩
  have hall := askPins_of_correct h.correct hlater
  have htokens : tokens = begun.flatMap Answer.tokens ++ refused := h.tokens_eq
  rw [htokens, List.map_append, ← hpins, List.append_assoc]
  exact hall

/-- A complete round gives its values. -/
theorem ask_of_complete {round : List Answer} {pins : List Pin} (hround : round.map Answer.pin = pins)
    (hcorrect : ∀ answer ∈ round, answer.Correct) (rest : List Item) :
    (ask pins ((round.flatMap Answer.tokens).map .word ++ rest)).Shows (.answer (vector round))
      (answersText round) rest := by
  have hlater : (askPins (addAnswers .empty round) [] rest).Shows (.answer (vector round)) "" rest :=
    ⟨rfl, rfl, rfl⟩
  have hall := askPins_of_correct hcorrect hlater
  rw [String.append_empty, List.append_nil, hround] at hall
  exact hall

/-- A session of a number of rounds runs a step for each that is complete. -/
theorem run_of_reads (h : decoding.Reads sim.circuit.inputs tokens)
    (hnames : (sim.circuit.inputs.map Pin.name).Nodup) (n : Nat) :
    ∃ outputs final, sim.run ((decoding.rounds.take n).map vector) = (.ok outputs, final) ∧
      Session.run sim n (tokens.map .word) =
        { ending := if n ≤ decoding.rounds.length then .running else .inputEnded
          printed := transcript (decoding.rounds.take n) outputs ++
            if n ≤ decoding.rounds.length then "" else decoding.lastText
          simulator := final
          steps := (decoding.rounds.take n).length } := by
  rcases decoding with ⟨rounds, begun, pin, refused⟩
  induction n generalizing sim rounds tokens with
  | zero => exact ⟨[], sim, rfl, rfl⟩
  | succ n ih =>
      cases rounds with
      | nil =>
          -- the next round is the one in which input ends
          have hasked := ask_of_unfinished h
          unfold Session.run
          simp only [hasked.reply_eq, hasked.printed_eq]
          refine ⟨[], sim, rfl, ?_⟩
          simp [transcript, Decoding.lastText]
      | cons round rounds =>
          rcases h.of_cons with ⟨later, rfl, hround, hcorrect, hlater⟩
          rcases exists_step hround hnames hcorrect with ⟨output, next, hstep, hcircuit⟩
          rw [← hcircuit] at hlater
          rcases ih (hcircuit ▸ hnames) rounds hlater with ⟨outputs, final, hrun, hsession⟩
          have hasked := ask_of_complete hround hcorrect (later.map .word)
          refine ⟨output :: outputs, final, ?_, ?_⟩
          · rw [List.take_succ_cons, List.map_cons, Simulator.run_cons_of_ok hstep, hrun]
            rfl
          · rw [List.map_append]
            unfold Session.run
            simp only [hasked.reply_eq, hasked.printed_eq, hasked.rest_eq, hstep, hsession, transcript,
              outputText, List.take_succ_cons, List.zipWith_cons_cons, String.join_cons, String.append_assoc,
              List.length_cons, Nat.add_le_add_iff_right, Decoding.lastText]

/-- More rounds make no difference to a session that has run its complete rounds and met the end of input. -/
theorem run_eq_of_beyond (h : decoding.Reads sim.circuit.inputs tokens)
    (hnames : (sim.circuit.inputs.map Pin.name).Nodup) {n m : Nat} (hn : decoding.rounds.length < n)
    (hm : decoding.rounds.length < m) :
    Session.run sim n (tokens.map .word) = Session.run sim m (tokens.map .word) := by
  rcases run_of_reads h hnames n with ⟨outputs, final, hrun, hsession⟩
  rcases run_of_reads h hnames m with ⟨outputs', final', hrun', hsession'⟩
  rw [List.take_of_length_le hn.le] at hrun hsession
  rw [List.take_of_length_le hm.le] at hrun' hsession'
  have hsame := hrun.symm.trans hrun'
  cases hsame
  rw [hsession, hsession', if_neg (Nat.not_le.2 hn), if_neg (Nat.not_le.2 hn), if_neg (Nat.not_le.2 hm),
    if_neg (Nat.not_le.2 hm)]

/-- A session is followed for long enough: as many rounds as its limit says or, without a limit, any number
    that is larger than the number of words come to the same. -/
theorem complete_eq_run (h : decoding.Reads sim.circuit.inputs tokens)
    (hnames : (sim.circuit.inputs.map Pin.name).Nodup) (hpins : sim.circuit.inputs ≠ [])
    {limit : Option Nat} {bytes : List UInt8} (hitems : items bytes = tokens.map .word) {n : Nat}
    (hn : limit = some n ∨ limit = none ∧ tokens.length < n) :
    Session.complete sim limit bytes = Session.run sim n (items bytes) := by
  have hle := h.length_rounds_le hpins
  unfold Session.complete
  simp only
  rw [hitems]
  rcases hn with rfl | ⟨rfl, hn⟩
  · have hrounds : rounds sim.circuit (some n) (tokens.map .word) = min n (tokens.length + 1) := by
      simp [rounds, hpins]
    rw [hrounds]
    rcases Nat.le_total n (tokens.length + 1) with hfew | hmany
    · rw [Nat.min_eq_left hfew]
    · rw [Nat.min_eq_right hmany]
      exact run_eq_of_beyond h hnames (by omega) (by omega)
  · have hrounds : rounds sim.circuit none (tokens.map .word) = tokens.length + 1 := by
      simp [rounds]
    rw [hrounds]
    exact run_eq_of_beyond h hnames (by omega) (by omega)

end Session

end Netlist.Console

namespace Netlist.Description

open Console

/-- A session refines a run. Take the simulation of a compiled description with input pins at power-on, any
    text that is typed and any limit. The words of the text can be decoded round by round, wherever its lines
    end; and however they are decoded, the session runs one step for each complete round within the limit,
    none is refused, and simulator and outputs are those of running the vectors of these rounds. It ends at
    the limit, or with the end of input if there are fewer complete rounds. Printed are, for each step, one
    prompt per word of each pin and the line of outputs, and at the end of input the prompts of the unfinished
    round, the one that met the end included, and a newline. Following a session without a limit for more
    rounds than there are words changes nothing: it has come to its end. -/
theorem session_refines_run {d : Description} {config : Config} {c : Circuit}
    (h : d.compile config = .ok c) (hpins : c.inputs ≠ []) (rom : RomStore) (settings : Config)
    (limit : Option Nat) (text : String) :
    let sim := Simulator.create c rom settings
    let bytes := Text.Utf8.encode text
    let tokens := Text.wordsBy Text.isBlank text.toList
    let session := Session.complete sim limit bytes
    (∃ decoding : Decoding, decoding.Reads c.inputs tokens) ∧
    ∀ decoding : Decoding, decoding.Reads c.inputs tokens →
      let reached := ∃ n, limit = some n ∧ n ≤ decoding.rounds.length
      let done := match limit with
        | some n => decoding.rounds.take n
        | none => decoding.rounds
      (∃ outputs, sim.run (done.map vector) = (.ok outputs, session.simulator) ∧
        session.steps = done.length ∧
        (reached → session.ending = .running ∧ session.printed = transcript done outputs) ∧
        (¬ reached → session.ending = .inputEnded ∧
          session.printed = transcript done outputs ++ decoding.lastText)) ∧
      ∀ n, limit = some n ∨ limit = none ∧ tokens.length < n →
        Session.run sim n (items bytes) = session := by
  intro sim bytes tokens session
  have hnames : (sim.circuit.inputs.map Pin.name).Nodup := by
    rcases compile_eq_ok_iff.1 h with ⟨inputs, outputs, parts, schedule, hchecked, -, rfl⟩
    exact Scope.pinNames_eq hchecked.inputs_attached ▸ hchecked.inputs_nodup
  refine ⟨Decoding.exists_reads hpins tokens, ?_⟩
  intro decoding hreads reached done
  have hitems : items bytes = tokens.map .word := items_encode text
  have hsession : ∀ n, limit = some n ∨ limit = none ∧ tokens.length < n →
      Session.run sim n (items bytes) = session := by
    intro n hn
    exact (Session.complete_eq_run hreads hnames hpins hitems hn).symm
  refine ⟨?_, hsession⟩
  cases limit with
  | some n =>
      rcases Session.run_of_reads hreads hnames n with ⟨outputs, final, hrun, hrounds⟩
      have hend : reached ↔ n ≤ decoding.rounds.length := by simp [reached]
      rw [← hitems, hsession n (.inl rfl)] at hrounds
      rw [hrounds, hend]
      refine ⟨outputs, hrun, rfl, ?_, ?_⟩
      · intro hle
        simp [hle, done]
      · intro hlt
        simp [hlt, done]
  | none =>
      have hle := hreads.length_rounds_le hpins
      have hbeyond : ¬ tokens.length + 1 ≤ decoding.rounds.length := by omega
      rcases Session.run_of_reads hreads hnames (tokens.length + 1) with ⟨outputs, final, hrun, hrounds⟩
      have hend : ¬ reached := by simp [reached]
      rw [← hitems, hsession (tokens.length + 1) (.inr ⟨rfl, Nat.lt_succ_self _⟩),
        List.take_of_length_le (by omega), if_neg hbeyond, if_neg hbeyond] at hrounds
      rw [List.take_of_length_le (by omega)] at hrun
      rw [hrounds]
      refine ⟨outputs, hrun, rfl, ?_, ?_⟩
      · intro hreached
        exact absurd hreached hend
      · intro _
        exact ⟨rfl, rfl⟩

/-- A gate of two inputs. -/
def conjunction : Description where
  name := "conjunction"
  inputs := ["a", "b"]
  outputs := ["y"]
  nets := [⟨"a", 1⟩, ⟨"b", 1⟩, ⟨"y", 1⟩]
  equations := [{ target := "y", op := .and, args := [.net "a", .net "b"] }]

/-- The word `2` is too wide for the second pin, which is asked for again on the next line; then input ends
    in the second round, after a word that is not hexadecimal. -/
theorem session_refines_run_conjunction : ∃ c, conjunction.compile .standard = .ok c ∧ c.inputs ≠ [] ∧
    let session := Session.complete (Simulator.create c (RomStore.ofCircuit c .standard) .standard) none
      (Text.Utf8.encode "1 2\n1 zz")
    session.printed = "a[1]:=b[1]:=b[1]:=y=1, \na[1]:=a[1]:=\n" ∧
    ∃ decoding : Decoding,
      decoding.Reads c.inputs (Text.wordsBy Text.isBlank "1 2\n1 zz".toList) ∧
      session.steps = decoding.rounds.length ∧ session.ending = .inputEnded := by
  obtain ⟨c, hc⟩ := exists_eq_ok_of_isOk (x := conjunction.compile .standard) (by decide +kernel)
  have hcompiled : (match conjunction.compile .standard with
      | .ok c => !c.inputs.isEmpty &&
          decide ((Session.complete (Simulator.create c (RomStore.ofCircuit c .standard) .standard) none
            (Text.Utf8.encode "1 2\n1 zz")).printed = "a[1]:=b[1]:=b[1]:=y=1, \na[1]:=a[1]:=\n")
      | .error _ => false) = true := by
    decide +kernel
  rw [hc] at hcompiled
  simp only [Bool.and_eq_true, decide_eq_true_iff, Bool.not_eq_true', List.isEmpty_eq_false_iff] at hcompiled
  rcases hcompiled with ⟨hpins, hprinted⟩
  rcases session_refines_run hc hpins (RomStore.ofCircuit c .standard) .standard none "1 2\n1 zz" with
    ⟨⟨decoding, hreads⟩, hsession⟩
  rcases hsession decoding hreads with ⟨⟨outputs, -, hsteps, -, hended⟩, -⟩
  have hunlimited : ¬ ∃ n, (none : Option Nat) = some n ∧ n ≤ decoding.rounds.length := by simp
  exact ⟨c, hc, hpins, hprinted, decoding, hreads, hsteps, (hended hunlimited).1⟩

end Netlist.Description
