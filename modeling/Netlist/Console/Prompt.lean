/-
Module: Netlist.Console.Prompt
Layer: Console
Purpose: Asking for pin values. What is typed is cut into words, wherever the lines end; a line that is
  not text is an obstacle in the stream of words. Each pin is prompted for until a word is a hexadecimal
  value that fits it.
Imports: Netlist.Circuit.Basic, Netlist.Error, Netlist.Log.Event, Netlist.Text.Blank, Netlist.Text.Hex,
  Netlist.Text.Utf8
Main exports: Item, items, promptText, judge, hear, askPin, askPins
-/
import Netlist.Circuit.Basic
import Netlist.Error
import Netlist.Log.Event
import Netlist.Text.Blank
import Netlist.Text.Hex
import Netlist.Text.Utf8

namespace Netlist.Console

/-!
### The stream of words
-/

/-- What the next read from the console gives. -/
inductive Item where
  /-- A word. -/
  | word (token : List Char)
  /-- A line that is not text. -/
  | broken
deriving Repr, Inhabited, DecidableEq

/-- The items of a line: its words, or one obstacle if it is not text. -/
def lineItems (line : List UInt8) : List Item :=
  match Text.Utf8.decode? line with
  | some text => (Text.words text).map .word
  | none => [.broken]

/-- Cuts bytes into lines, each with the newline that ends it. The bytes of the line under way are held
    last byte first. -/
def linesFrom : List UInt8 → List UInt8 → List (List UInt8)
  | [], [] => []
  | line, [] => [line.reverse]
  | line, b :: rest =>
    if b = 0x0A then (b :: line).reverse :: linesFrom [] rest else linesFrom (b :: line) rest

/-- The items of everything that is typed. -/
def items (bytes : List UInt8) : List Item :=
  (linesFrom [] bytes).flatMap lineItems

/-!
### Asking
-/

/-- The prompt for a pin. -/
def promptText (pin : Pin) : String :=
  pin.name ++ "[" ++ toString pin.width ++ "]:="

/-- What a word means at the prompt for a pin: a value, or the reason to prompt again. -/
def judge (pin : Pin) (token : List Char) : Except Event Word :=
  match Text.Hex.parse token with
  | none => .error (.notHexadecimal pin.name (String.ofList token))
  | some value =>
    if Word.fits value pin.width then .ok value
    else .error (.valueTooWide pin.name value pin.width)

/-- How asking has ended. -/
inductive Reply (α : Type) where
  /-- With an answer. -/
  | answer (value : α)
  /-- With the end of input. -/
  | ended
  /-- With a failure to read. -/
  | failed (cause : IoFailure)
deriving Repr, Inhabited, DecidableEq

/-- What comes of a read at the prompt for a pin. -/
inductive Heard where
  /-- The prompt is over. -/
  | closed (reply : Reply Word)
  /-- The pin is to be prompted for again. -/
  | again (event : Event)
deriving Repr, DecidableEq

/-- Takes the next item, or the end of input, at the prompt for a pin. -/
def hear (pin : Pin) : Option Item → Heard
  | none => .closed .ended
  | some .broken => .closed (.failed .invalidText)
  | some (.word token) =>
    match judge pin token with
    | .ok value => .closed (.answer value)
    | .error event => .again event

/-- What asking has done: how it ended, what it printed, what was worth noting, and what is left to
    read. -/
structure Asked (α : Type) where
  /-- How asking has ended. -/
  reply : Reply α
  /-- What has been printed. -/
  printed : String
  /-- What was worth noting. -/
  events : List Event
  /-- What is left to read. -/
  rest : List Item
deriving Repr, DecidableEq

/-- Prompts for a pin until a word is a value for it. -/
def askPin (pin : Pin) : List Item → Asked Word
  | [] => ⟨.ended, promptText pin, [], []⟩
  | item :: rest =>
    match hear pin (some item) with
    | .closed reply => ⟨reply, promptText pin, [], rest⟩
    | .again event =>
      let later := askPin pin rest
      { later with printed := promptText pin ++ later.printed, events := event :: later.events }

/-- Prompts for every pin and gathers their values. -/
def askPins (inputs : InputVector) : List Pin → List Item → Asked InputVector
  | [], rest => ⟨.answer inputs, "", [], rest⟩
  | pin :: pins, rest =>
    let asked := askPin pin rest
    match asked.reply with
    | .ended => ⟨.ended, asked.printed, asked.events, asked.rest⟩
    | .failed cause => ⟨.failed cause, asked.printed, asked.events, asked.rest⟩
    | .answer value =>
      let later := askPins (inputs.insert pin.name value) pins asked.rest
      { later with
        printed := asked.printed ++ later.printed
        events := asked.events ++ later.events }

/-- Asks for the values of one step. -/
def ask (pins : List Pin) (rest : List Item) : Asked InputVector :=
  askPins .empty pins rest

end Netlist.Console
