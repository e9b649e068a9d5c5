/-
Module: Netlist.Proofs.Console.Asking
Layer: Proofs
Purpose: Asking for pin values. Of a text that is typed, only its words matter and not its lines. The words
  are read pin by pin: those that are no value for the pin are passed over, and the first that is one
  answers. Each word has cost a prompt, and the end of input costs one more.
Imports: Mathlib.Data.List.Basic, Netlist.Console.Prompt, Netlist.Proofs.Text.Utf8, Netlist.Proofs.Text.Words,
  Netlist.Proofs.Word
Main exports: Console.items_encode, Console.value?, Console.Answer, Console.Answer.Correct,
  Console.askPin_of_refused, Console.askPin_of_correct, Console.askPins_of_correct, Console.exists_answers
-/
import Mathlib.Data.List.Basic
import Netlist.Console.Prompt
import Netlist.Proofs.Text.Utf8
import Netlist.Proofs.Text.Words
import Netlist.Proofs.Word

namespace Netlist.Console

/-!
### The words of a text
-/

/-- Bytes without a newline go to the line under way. -/
theorem linesFrom_append {bytes : List UInt8} (h : 0x0A ∉ bytes) (line rest : List UInt8) :
    linesFrom line (bytes ++ rest) = linesFrom (bytes.reverse ++ line) rest := by
  induction bytes generalizing line with
  | nil => rfl
  | cons b bytes ih =>
      rw [List.mem_cons, not_or] at h
      rw [List.cons_append, linesFrom, if_neg (Ne.symm h.1), ih h.2, List.reverse_cons, List.append_assoc]
      rfl

/-- The last line may lack a newline, and is not there when it has no bytes. -/
theorem lineItems_last (line : List UInt8) :
    (linesFrom line []).flatMap lineItems = lineItems line.reverse := by
  cases line with
  | nil => rfl
  | cons b line => exact List.flatMap_singleton lineItems _

theorem lineItems_flatMap (text : List Char) :
    lineItems (text.flatMap String.utf8EncodeChar) = (Text.wordsBy Text.isBlank text).map .word := by
  unfold lineItems
  rw [Text.Utf8.decode?_flatMap, ← Text.words_eq_wordsBy]

/-- The items of a text, of whose current line `begun` has been read, are its words. The newline that ends
    a line stands between two words. -/
theorem items_linesFrom (begun text : List Char) :
    (linesFrom (begun.flatMap String.utf8EncodeChar).reverse (text.flatMap String.utf8EncodeChar)).flatMap
      lineItems = (Text.wordsBy Text.isBlank (begun ++ text)).map .word := by
  induction text generalizing begun with
  | nil =>
      rw [List.flatMap_nil, lineItems_last, List.reverse_reverse, lineItems_flatMap, List.append_nil]
  | cons c rest ih =>
      by_cases hnewline : c = '\n'
      · have hbyte : String.utf8EncodeChar '\n' = [0x0A] := by decide
        have hline : (0x0A :: (begun.flatMap String.utf8EncodeChar).reverse).reverse =
            (begun ++ ['\n']).flatMap String.utf8EncodeChar := by
          simp [hbyte]
        have hblank : Text.isBlank '\n' = true := by decide
        rw [hnewline, List.flatMap_cons, hbyte, List.singleton_append, linesFrom, if_pos rfl,
          List.flatMap_cons, hline, lineItems_flatMap, Text.wordsBy_append_cons hblank begun rest,
          Text.wordsBy_append_cons hblank begun [], List.map_append, List.map_append]
        have hlater := ih []
        rw [List.flatMap_nil, List.reverse_nil, List.nil_append] at hlater
        rw [hlater]
        simp [Text.wordsBy]
      · have hbytes : 0x0A ∉ String.utf8EncodeChar c :=
          fun hmem => hnewline (Text.Utf8.eq_newline_of_mem_utf8EncodeChar hmem)
        have hnext := ih (begun ++ [c])
        rw [List.flatMap_append, List.reverse_append, List.append_assoc] at hnext
        rw [List.flatMap_cons, linesFrom_append hbytes]
        simpa using hnext

/-- The items of an encoded text are its words, wherever its lines end. -/
theorem items_encode (text : String) :
    items (Text.Utf8.encode text) = (Text.wordsBy Text.isBlank text.toList).map .word := by
  rw [Text.Utf8.encode_eq_flatMap]
  exact items_linesFrom [] text.toList

/-!
### Answers
-/

/-- The value that a word gives a pin, if it is hexadecimal and fits the pin. -/
def value? (pin : Pin) (token : List Char) : Option Word :=
  (Text.Hex.parse token).filter (fun value => value.toNat < 2 ^ pin.width)

/-- How a pin has come to its value: the words that were no value for it, and then the one that was. -/
structure Answer where
  /-- The pin. -/
  pin : Pin
  /-- The words that were refused. -/
  refused : List (List Char)
  /-- The word that was taken. -/
  token : List Char
  /-- The value of this word. -/
  value : Word
deriving Repr, DecidableEq

/-- One prompt for a pin per word. -/
def prompts (pin : Pin) (tokens : List (List Char)) : String :=
  String.join (tokens.map (fun _ => promptText pin))

theorem prompts_append (pin : Pin) (tokens later : List (List Char)) :
    prompts pin (tokens ++ later) = prompts pin tokens ++ prompts pin later := by
  unfold prompts
  rw [List.map_append, String.join_append]

theorem prompts_singleton (pin : Pin) (token : List Char) : prompts pin [token] = promptText pin := by
  simp [prompts]

namespace Answer

/-- The words that have gone into an answer. -/
def tokens (answer : Answer) : List (List Char) :=
  answer.refused ++ [answer.token]

/-- What has been printed for an answer. -/
def text (answer : Answer) : String :=
  prompts answer.pin answer.tokens

/-- The first word that is a value for the pin has been taken. -/
structure Correct (answer : Answer) : Prop where
  refused : ∀ token ∈ answer.refused, value? answer.pin token = none
  taken : value? answer.pin answer.token = some answer.value

end Answer

theorem judge_of_some {pin : Pin} {token : List Char} {value : Word} (h : value? pin token = some value) :
    judge pin token = .ok value := by
  rcases Option.filter_eq_some_iff.1 h with ⟨hparse, hfits⟩
  unfold judge
  rw [hparse]
  simp only
  rw [if_pos (Word.fits_iff.2 (by simpa using hfits))]

theorem judge_of_none {pin : Pin} {token : List Char} (h : value? pin token = none) :
    ∃ event, judge pin token = .error event := by
  unfold judge
  cases hparse : Text.Hex.parse token with
  | none => exact ⟨_, rfl⟩
  | some value =>
      have hwide : ¬ Word.fits value pin.width = true := by
        rw [Word.fits_iff]
        simpa using Option.filter_eq_none_iff.1 h value hparse
      simp only
      rw [if_neg hwide]
      exact ⟨_, rfl⟩

/-- A word that is a value for the pin ends the prompt. -/
theorem hear_of_some {pin : Pin} {token : List Char} {value : Word} (h : value? pin token = some value) :
    hear pin (some (.word token)) = .closed (.answer value) := by
  rw [hear, judge_of_some h]

/-- After any other word the pin is prompted for again. -/
theorem hear_of_none {pin : Pin} {token : List Char} (h : value? pin token = none) :
    ∃ event, hear pin (some (.word token)) = .again event := by
  rcases judge_of_none h with ⟨event, hjudge⟩
  exact ⟨event, by rw [hear, hjudge]⟩

/-!
### Asking
-/

/-- What asking has come to, apart from what was worth noting. -/
structure Asked.Shows {α : Type} (asked : Asked α) (reply : Reply α) (printed : String) (rest : List Item) :
    Prop where
  reply_eq : asked.reply = reply
  printed_eq : asked.printed = printed
  rest_eq : asked.rest = rest

/-- Words that are refused cost a prompt each, and the pin is asked for again. -/
theorem askPin_of_refused {pin : Pin} {refused : List (List Char)}
    (h : ∀ token ∈ refused, value? pin token = none) {input rest : List Item} {reply : Reply Word}
    {printed : String} (hlater : (askPin pin input).Shows reply printed rest) :
    (askPin pin (refused.map .word ++ input)).Shows reply (prompts pin refused ++ printed) rest := by
  induction refused with
  | nil =>
      have hnone : prompts pin [] ++ printed = printed := String.empty_append
      rw [hnone]
      exact hlater
  | cons token refused ih =>
      rw [List.forall_mem_cons] at h
      rcases hear_of_none h.1 with ⟨event, hheard⟩
      rcases ih h.2 with ⟨hreply, hprinted, hrest⟩
      rw [List.map_cons, List.cons_append, askPin, hheard]
      refine ⟨hreply, ?_, hrest⟩
      simp only
      rw [hprinted, ← List.singleton_append, prompts_append, prompts_singleton, String.append_assoc]

/-- An answer that is correct is given. -/
theorem askPin_of_correct {answer : Answer} (h : answer.Correct) (rest : List Item) :
    (askPin answer.pin (answer.tokens.map .word ++ rest)).Shows (.answer answer.value) answer.text rest := by
  have htaken : (askPin answer.pin (.word answer.token :: rest)).Shows (.answer answer.value)
      (promptText answer.pin) rest := by
    rw [askPin, hear_of_some h.taken]
    exact ⟨rfl, rfl, rfl⟩
  have hall := askPin_of_refused h.refused htaken
  rw [Answer.text, Answer.tokens, prompts_append, prompts_singleton, List.map_append, List.append_assoc]
  exact hall

/-- Where all words are refused, the end of input is met. -/
theorem askPin_of_all_refused {pin : Pin} {refused : List (List Char)}
    (h : ∀ token ∈ refused, value? pin token = none) :
    (askPin pin (refused.map .word)).Shows .ended (prompts pin refused ++ promptText pin) [] := by
  have hend : (askPin pin []).Shows .ended (promptText pin) [] := ⟨rfl, rfl, rfl⟩
  have hall := askPin_of_refused h hend
  rwa [List.append_nil] at hall

/-- What has been printed for answers. -/
def answersText (answers : List Answer) : String :=
  String.join (answers.map Answer.text)

/-- The values that answers add to a vector. -/
def addAnswers (inputs : InputVector) (answers : List Answer) : InputVector :=
  (answers.map (fun answer => (answer.pin.name, answer.value))).foldl (fun inputs e => inputs.insert e.1 e.2)
    inputs

/-- Answers are gathered pin by pin. -/
theorem askPins_of_correct {answers : List Answer} (h : ∀ answer ∈ answers, answer.Correct)
    {inputs : InputVector} {pins : List Pin} {input rest : List Item} {reply : Reply InputVector}
    {printed : String} (hlater : (askPins (addAnswers inputs answers) pins input).Shows reply printed rest) :
    (askPins inputs (answers.map Answer.pin ++ pins)
      ((answers.flatMap Answer.tokens).map .word ++ input)).Shows
        reply (answersText answers ++ printed) rest := by
  induction answers generalizing inputs with
  | nil =>
      have hnone : answersText [] ++ printed = printed := String.empty_append
      rw [hnone]
      exact hlater
  | cons answer answers ih =>
      rw [List.forall_mem_cons] at h
      rcases ih h.2 hlater with ⟨hreply, hprinted, hrest⟩
      rcases askPin_of_correct h.1 ((answers.flatMap Answer.tokens).map .word ++ input) with
        ⟨hfirst, htext, hleft⟩
      rw [List.flatMap_cons, List.map_append, List.append_assoc, List.map_cons, List.cons_append, askPins]
      simp only [hfirst, hleft, htext]
      refine ⟨hreply, ?_, hrest⟩
      simp only
      rw [hprinted, answersText, answersText, List.map_cons, String.join_cons, String.append_assoc]

/-!
### Reading words as answers
-/

/-- Words have an answer for a pin in front, or are no values for it. -/
theorem exists_answer (pin : Pin) (tokens : List (List Char)) :
    (∃ (answer : Answer) (rest : List (List Char)), answer.pin = pin ∧ answer.Correct ∧
      tokens = answer.tokens ++ rest) ∨
      ∀ token ∈ tokens, value? pin token = none := by
  induction tokens with
  | nil =>
      right
      intro token hmem
      cases hmem
  | cons token tokens ih =>
      cases hvalue : value? pin token with
      | some value =>
          left
          refine ⟨⟨pin, [], token, value⟩, tokens, rfl, ⟨?_, hvalue⟩, rfl⟩
          intro other hmem
          cases hmem
      | none =>
          rcases ih with ⟨answer, rest, rfl, hcorrect, rfl⟩ | hall
          · left
            refine ⟨{ answer with refused := token :: answer.refused }, rest, rfl, ⟨?_, hcorrect.taken⟩, rfl⟩
            exact List.forall_mem_cons.2 ⟨hvalue, hcorrect.refused⟩
          · right
            exact List.forall_mem_cons.2 ⟨hvalue, hall⟩

/-- Words have an answer for every pin in front, or answers for some of the pins up to one for which the
    others are no values. -/
theorem exists_answers (pins : List Pin) (tokens : List (List Char)) :
    (∃ (answers : List Answer) (rest : List (List Char)), answers.map Answer.pin = pins ∧
      (∀ answer ∈ answers, answer.Correct) ∧ tokens = answers.flatMap Answer.tokens ++ rest) ∨
    ∃ (answers : List Answer) (pin : Pin) (refused : List (List Char)),
      answers.map Answer.pin ++ [pin] <+: pins ∧ (∀ answer ∈ answers, answer.Correct) ∧
      (∀ token ∈ refused, value? pin token = none) ∧ tokens = answers.flatMap Answer.tokens ++ refused := by
  induction pins generalizing tokens with
  | nil =>
      left
      refine ⟨[], tokens, rfl, ?_, rfl⟩
      intro answer hmem
      cases hmem
  | cons pin pins ih =>
      rcases exists_answer pin tokens with ⟨answer, later, rfl, hcorrect, rfl⟩ | hall
      · rcases ih later with ⟨answers, rest, rfl, hcorrects, rfl⟩ |
          ⟨answers, next, refused, hpins, hcorrects, hrefused, rfl⟩
        · left
          refine ⟨answer :: answers, rest, rfl, List.forall_mem_cons.2 ⟨hcorrect, hcorrects⟩, ?_⟩
          rw [List.flatMap_cons, List.append_assoc]
        · right
          refine ⟨answer :: answers, next, refused, ?_, List.forall_mem_cons.2 ⟨hcorrect, hcorrects⟩,
            hrefused, ?_⟩
          · exact List.cons_prefix_cons.2 ⟨rfl, hpins⟩
          · rw [List.flatMap_cons, List.append_assoc]
      · right
        refine ⟨[], pin, tokens, ⟨pins, rfl⟩, ?_, hall, rfl⟩
        intro answer hmem
        cases hmem

end Netlist.Console
