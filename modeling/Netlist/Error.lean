/-
Module: Netlist.Error
Layer: Foundations
Purpose: Everything that can go wrong, as causes. Compiling a description, reading and applying a ROM
  image, running a step and loading a configuration each have a type of their own; the wording of each
  cause stands in one function, `message`.
Imports: Netlist.Description.Basic
Main exports: IoFailure, NetlistError, RomError, StepError, ConfigError and their messages
-/
import Netlist.Description.Basic

namespace Netlist

/-- Why a file or a stream could not be read. -/
inductive IoFailure where
  | notFound
  | notADirectory
  | isADirectory
  | invalidText
  /-- Any other failure, in the words of the system. -/
  | other (text : String)
deriving Repr, Inhabited, DecidableEq

/-- The wording of a failure to read. -/
def IoFailure.message : IoFailure → String
  | .notFound => "No such file or directory (os error 2)"
  | .notADirectory => "Not a directory (os error 20)"
  | .isADirectory => "Is a directory (os error 21)"
  | .invalidText => "stream did not contain valid UTF-8"
  | .other text => text

/-!
### Compiling a description
-/

/-- What an equation has too few or too many of. -/
inductive Counted where
  | operands
  | parameters
deriving Repr, Inhabited, DecidableEq

/-- The word for what is counted. -/
def Counted.text : Counted → String
  | .operands => "operands"
  | .parameters => "parameters"

/-- A place of an equation whose width is checked. -/
inductive Place where
  | operand
  | leftOperand
  | rightOperand
  | selector
  | firstInput
  | secondInput
  | nextValue
  | result
  | word
  | address
  | readAddress
  | writeEnable
  | writeAddress
  | writeData
deriving Repr, Inhabited, DecidableEq

/-- The words for a place. -/
def Place.text : Place → String
  | .operand => "operand"
  | .leftOperand => "left operand"
  | .rightOperand => "right operand"
  | .selector => "selector"
  | .firstInput => "first input"
  | .secondInput => "second input"
  | .nextValue => "next value"
  | .result => "result"
  | .word => "word"
  | .address => "address"
  | .readAddress => "read address"
  | .writeEnable => "write enable"
  | .writeAddress => "write address"
  | .writeData => "write data"

/-- Why a description gives no circuit. -/
inductive NetlistError where
  /-- The file of the description could not be read. -/
  | unreadable (path : String) (cause : IoFailure)
  /-- The text is not JSON, or not the JSON of a description. -/
  | malformed
  /-- A net is declared twice. -/
  | duplicateNet (net : String)
  /-- A net or a memory has a width of zero or above the limit. -/
  | invalidWidth (net : String) (width limit : Nat)
  /-- A constant in the equation of `net` has a width of zero or above the limit. -/
  | invalidConstantWidth (net : String) (value : Word) (width limit : Nat)
  /-- A pin, a target or an operand names a net that is not declared. -/
  | unknownNet (net : String)
  /-- A pin is listed twice. -/
  | duplicatePin (pin : String)
  /-- A net has several drivers. -/
  | multipleDrivers (net : String) (count : Nat)
  /-- A net has no driver. -/
  | undriven (net : String)
  /-- An equation has the wrong number of operands or parameters. -/
  | arity (net : String) (op : Op) (what : Counted) (expected found : Nat)
  /-- An equation other than a register has a power-on value. -/
  | unexpectedInit (net : String) (op : Op)
  /-- A place of an equation has the wrong width. -/
  | widthMismatch (net : String) (op : Op) (what : Place) (expected found : Nat)
  /-- A bit or a range of bits lies outside of its operand. -/
  | bitRange (net : String) (op : Op) (low high width : Nat)
  /-- A constant has no width and its position gives it none. -/
  | untypedConstant (net : String) (op : Op) (value : Word)
  /-- A constant or a power-on value does not fit its width. -/
  | valueTooWide (net : String) (value : Word) (width : Nat)
  /-- A cycle passes through gates only. The path holds the nets on it, the first one again at the
      end. -/
  | combinationalCycle (path : List String)
deriving Repr, Inhabited, DecidableEq

/-- How an equation is shown in a message. -/
def equationText (net : String) (op : Op) : String :=
  "`" ++ net ++ " = " ++ op.name ++ " ...`"

/-- The message about the width of a net or of something that is shown like one. -/
def widthText (net : String) (width limit : Nat) : String :=
  "net `" ++ net ++ "` is " ++ toString width ++ " bits wide; buses must be 1 to " ++
    toString limit ++ " bits"

/-- The wording of a fault in a description. -/
def NetlistError.message : NetlistError → String
  | .unreadable path cause => "cannot read netlist `" ++ path ++ "`: " ++ cause.message
  | .malformed => "malformed netlist description"
  | .duplicateNet net => "net `" ++ net ++ "` is declared more than once"
  | .invalidWidth net width limit => widthText net width limit
  | .invalidConstantWidth net value width limit =>
    widthText (net ++ ":" ++ value.markedHex) width limit
  | .unknownNet net => "net `" ++ net ++ "` is used but never declared"
  | .duplicatePin pin => "pin `" ++ pin ++ "` is listed more than once"
  | .multipleDrivers net count =>
    "net `" ++ net ++ "` has " ++ toString count ++ " drivers; every net needs exactly one"
  | .undriven net =>
    "net `" ++ net ++ "` has no value; add it to the inputs or give it an equation"
  | .arity net op what expected found =>
    equationText net op ++ " takes " ++ toString expected ++ " " ++ what.text ++ ", " ++
      toString found ++ " given"
  | .unexpectedInit net op => equationText net op ++ ": only registers take an initial value"
  | .widthMismatch net op what expected found =>
    equationText net op ++ ": " ++ what.text ++ " is " ++ toString found ++
      " bits wide, expected " ++ toString expected
  | .bitRange net op low high width =>
    equationText net op ++ ": bit range " ++ toString low ++ ".." ++ toString high ++
      " is invalid for a " ++ toString width ++ "-bit bus"
  | .untypedConstant net op value =>
    equationText net op ++ ": cannot infer the width of constant " ++ value.markedHex
  | .valueTooWide net value width =>
    "`" ++ net ++ "`: value " ++ value.markedHex ++ " does not fit in " ++ toString width ++ " bits"
  | .combinationalCycle path => "combinational cycle: " ++ String.intercalate " -> " path

/-!
### Reading and applying a ROM image
-/

/-- Why a ROM image is not read or not applied. -/
inductive RomError where
  /-- The file of the image could not be opened. -/
  | unreadable (path : String) (cause : IoFailure)
  /-- Reading stopped half-way. -/
  | interrupted (cause : IoFailure)
  /-- A token is not a hexadecimal word. -/
  | badToken (line : Nat) (token : String)
  /-- A word does not fit the words of its block. -/
  | wordTooWide (block : String) (index : Nat) (value : Word) (width : Nat)
  /-- The image holds fewer words than the blocks, and that is not allowed. -/
  | imageTooShort (expected found : Nat)
  /-- There is no block of this name. -/
  | unknownBlock (block : String)
deriving Repr, Inhabited, DecidableEq

/-- The wording of a fault of a ROM image. -/
def RomError.message : RomError → String
  | .unreadable path cause => "cannot read ROM image `" ++ path ++ "`: " ++ cause.message
  | .interrupted cause => "error while reading ROM image: " ++ cause.message
  | .badToken line token =>
    "line " ++ toString line ++ ": `" ++ token ++ "` is not a hexadecimal word"
  | .wordTooWide block index value width =>
    "ROM `" ++ block ++ "` word " ++ toString index ++ " (" ++ value.markedHex ++
      ") does not fit in " ++ toString width ++ " bits"
  | .imageTooShort expected found =>
    "ROM image holds " ++ toString found ++ " words, " ++ toString expected ++ " required"
  | .unknownBlock block => "netlist has no ROM block named `" ++ block ++ "`"

/-!
### Running a step
-/

/-- Why a step is refused. -/
inductive StepError where
  /-- The vector has no value for an input pin. -/
  | missingInput (pin : String)
  /-- The vector has a value for something that is no input pin. -/
  | unknownInput (pin : String)
  /-- A value does not fit its pin. -/
  | valueOutOfRange (pin : String) (value : Word) (width : Nat)
deriving Repr, Inhabited, DecidableEq

/-- The wording of a refused step. -/
def StepError.message : StepError → String
  | .missingInput pin => "input vector is missing pin `" ++ pin ++ "`"
  | .unknownInput pin => "input vector names unknown pin `" ++ pin ++ "`"
  | .valueOutOfRange pin value width =>
    "input `" ++ pin ++ "` = " ++ value.markedHex ++ " does not fit in " ++ toString width ++
      " bits"

/-!
### Loading a configuration
-/

/-- Why a configuration is not accepted. -/
inductive ConfigError where
  /-- The file of the configuration could not be read. -/
  | unreadable (path : String) (cause : IoFailure)
  /-- The text is not JSON, or not the JSON of a configuration. -/
  | malformed
  /-- The limit of bus widths is zero or above the widest bus. -/
  | invalidBusWidth (width : Nat)
deriving Repr, Inhabited, DecidableEq

/-- The wording of a fault of a configuration. -/
def ConfigError.message : ConfigError → String
  | .unreadable path cause => "cannot read configuration `" ++ path ++ "`: " ++ cause.message
  | .malformed => "malformed configuration"
  | .invalidBusWidth width =>
    "invalid configuration: netlist.max_bus_width must be between 1 and " ++
      toString Word.maxWidth ++ ", got " ++ toString width

end Netlist
