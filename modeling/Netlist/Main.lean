/-
Module: Netlist.Main
Layer: CommandLine
Purpose: The program itself. Files are read before anything is computed; prompts are printed and lines are
  read as they are needed, so that a session can be typed. Everything that is decided is decided by the
  modules below this one.
Imports: Netlist.CommandLine.Program, Netlist.Console.Dialogue
Main exports: main
-/
import Netlist.CommandLine.Program
import Netlist.Console.Dialogue

namespace Netlist.CommandLine

open Netlist.Console

/-!
### Files
-/

/-- A failure of the system in the words of this library. -/
def failureOf : IO.Error → IoFailure
  | .noFileOrDirectory .. => .notFound
  | .inappropriateType _ code details =>
    if code = 20 then .notADirectory
    else if code = 21 then .isADirectory
    else .other (details ++ " (os error " ++ toString code ++ ")")
  | .permissionDenied _ code details =>
    .other (details ++ " (os error " ++ toString code ++ ")")
  | fault => .other (toString fault)

/-- Reads a file to its end, or to its first NUL byte. -/
partial def readHandle (handle : IO.FS.Handle) (stopAtNul : Bool) (data : ByteArray) :
    IO ByteArray := do
  let chunk ← handle.read 65536
  let data := data ++ chunk
  if chunk.isEmpty || (stopAtNul && chunk.data.contains 0) then return data
  else readHandle handle stopAtNul data

/-- What an opened file holds. -/
def readContent (handle : IO.FS.Handle) (stopAtNul : Bool) : IO Content := do
  try
    let data ← readHandle handle stopAtNul .empty
    return .bytes data.toList
  catch fault =>
    return .unreadable (failureOf fault)

/-- Opens and reads a path. An image is not read beyond its first NUL byte, where it ends. -/
def openPath (path : String) (stopAtNul : Bool) : IO (Except IoFailure Content) := do
  try
    let handle ← IO.FS.Handle.mk path .read
    let content ← readContent handle stopAtNul
    return .ok content
  catch fault =>
    return .error (failureOf fault)

/-- The files that the arguments name. -/
def filesOf (arguments : Arguments) : IO Files := do
  let whole := arguments.netlist :: arguments.config.toList
  let mut entries : List (String × Except IoFailure Content) := []
  for path in whole do
    entries := (path, ← openPath path false) :: entries
  if let some path := arguments.rom then
    unless whole.contains path do
      entries := (path, ← openPath path true) :: entries
  let known := entries
  return ⟨fun path =>
    match known.find? (fun e => e.1 == path) with
    | some e => e.2
    | none => .error .notFound⟩

/-!
### The console
-/

/-- Prints what is worth a warning. -/
def printEvents (events : List Event) : IO Unit := do
  for event in Event.select .warn events do
    let fields := event.fields.map (fun f => " " ++ f.1 ++ "=" ++ f.2)
    IO.eprintln (event.level.name ++ " " ++ event.message ++ String.join fields)

/-- Prints text at once. -/
def say (text : String) : IO Unit := do
  let out ← IO.getStdout
  out.putStr text
  out.flush

/-- Reads one line, with the newline that ends it. -/
partial def readLine (input : IO.FS.Stream) (line : ByteArray) : IO ByteArray := do
  let next ← input.read 1
  let line := line ++ next
  if next.isEmpty || next.data.contains 0x0A then return line else readLine input line

/-- Makes sure that there is something to read, unless input has ended. -/
partial def refill (input : IO.FS.Stream) (pending : List Item) : IO (List Item) := do
  if !pending.isEmpty then return pending
  let line ← readLine input .empty
  if line.isEmpty then return [] else refill input (lineItems line.toList)

/-- Takes the turns of a dialogue until the session is over, and says how it has ended. -/
partial def converse (input : IO.FS.Stream) (limit : Option Nat) (dialogue : Dialogue)
    (pending : List Item) : IO (Ending × Simulator) := do
  let (turn, rest) ← match dialogue.action limit with
    | .take turn => pure (turn, pending)
    | .prompt pin turn => do
      say (promptText pin)
      let pending ← refill input pending
      pure (turn pending.head?, pending.tail)
  say turn.printed
  printEvents turn.events
  match turn.next with
  | .ok next => converse input limit next rest
  | .error ending => return (ending, dialogue.simulator)

/-!
### The program
-/

/-- Prints why the program fails. -/
def fail (failure : Failure) : IO UInt32 := do
  IO.eprintln ("nlsim: " ++ failure.message)
  return 1

/-- Runs the circuit that the arguments ask for. -/
def execute (arguments : Arguments) : IO UInt32 := do
  let files ← filesOf arguments
  printEvents (arguments.prepareEvents files)
  match arguments.prepare files with
  | .error failure => fail failure
  | .ok sim =>
    match ← converse (← IO.getStdin) arguments.steps (.start sim 0) [] with
    | (.failed fault, _) => fail (.session fault)
    | (_, sim) =>
      if arguments.stats then
        for line in sim.stats.report do
          IO.eprintln line
      return 0

end Netlist.CommandLine

open Netlist.CommandLine in
/-- Grants the request made by the arguments. -/
def main (arguments : List String) : IO UInt32 := do
  match Request.ofArguments? arguments with
  | none =>
    IO.eprintln usageText
    return 2
  | some .version =>
    IO.println versionText
    return 0
  | some .help =>
    IO.println usageText
    return 0
  | some (.run arguments) => execute arguments
