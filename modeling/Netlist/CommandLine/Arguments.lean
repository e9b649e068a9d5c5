/-
Module: Netlist.CommandLine.Arguments
Layer: CommandLine
Purpose: The arguments of the program: the description, an optional ROM image, an optional configuration,
  an optional number of steps and the wish for statistics. Arguments are taken from left to right; an
  option's value is the rest of its own argument or the next argument, provided that one does not look
  like an option itself.
Imports: none
Main exports: Arguments, Request, Argument, Request.ofArguments?
-/

namespace Netlist.CommandLine

/-- What the program is asked to run. -/
structure Arguments where
  /-- The path of the description. -/
  netlist : String
  /-- The path of the ROM image. -/
  rom : Option String := none
  /-- The path of the configuration. -/
  config : Option String := none
  /-- The greatest number of steps. -/
  steps : Option Nat := none
  /-- Whether statistics are printed at the end. -/
  stats : Bool := false
deriving Repr, Inhabited, DecidableEq

/-- What the program is asked for. -/
inductive Request where
  /-- To run a circuit. -/
  | run (arguments : Arguments)
  /-- To name its version. -/
  | version
  /-- To explain its arguments. -/
  | help
deriving Repr, Inhabited, DecidableEq

/-- The arguments taken so far. -/
structure Taken where
  /-- The path of the description. -/
  netlist : Option String := none
  /-- The path of the ROM image. -/
  rom : Option String := none
  /-- The path of the configuration. -/
  config : Option String := none
  /-- The greatest number of steps. -/
  steps : Option Nat := none
  /-- Whether statistics are printed at the end. -/
  stats : Bool := false
deriving Repr, Inhabited, DecidableEq

namespace Taken

/-- Takes a path that stands by itself. A path is never empty, and there is room for two. -/
def position (t : Taken) (path : String) : Option Taken :=
  if path.isEmpty then none
  else
    match t.netlist, t.rom with
    | none, _ => some { t with netlist := some path }
    | some _, none => some { t with rom := some path }
    | some _, some _ => none

/-- Takes the path of the configuration, at most once. -/
def setConfig (t : Taken) (path : String) : Option Taken :=
  if path.isEmpty || t.config.isSome then none else some { t with config := some path }

/-- The number spelled by decimal digits with an optional plus sign, if it fits in 64 bits. -/
def count? (text : String) : Option Nat :=
  let digits :=
    match text.toList with
    | '+' :: rest => rest
    | rest => rest
  if digits ≠ [] ∧ digits.all Char.isDigit then
    let value := digits.foldl (fun n c => 10 * n + (c.toNat - '0'.toNat)) 0
    if value < UInt64.size then some value else none
  else none

/-- Takes the number of steps, at most once. -/
def setSteps (t : Taken) (text : String) : Option Taken :=
  if t.steps.isSome then none
  else (count? text).map (fun n => { t with steps := some n })

/-- Takes the wish for statistics, at most once. -/
def setStats (t : Taken) : Option Taken :=
  if t.stats then none else some { t with stats := true }

/-- The request, once all arguments are taken. -/
def finish (t : Taken) : Option Request :=
  t.netlist.map (fun netlist =>
    .run { netlist, rom := t.rom, config := t.config, steps := t.steps, stats := t.stats })

end Taken

/-- An option that takes a value. -/
inductive Setting where
  | config
  | steps
deriving Repr, Inhabited, DecidableEq

/-- Takes the value of an option. -/
def Setting.take (setting : Setting) (t : Taken) (value : String) : Option Taken :=
  match setting with
  | .config => t.setConfig value
  | .steps => t.setSteps value

/-- What an argument says. -/
inductive Argument where
  /-- A path that stands by itself. -/
  | position (path : String)
  /-- An option with its value in the same argument. -/
  | attached (setting : Setting) (value : String)
  /-- An option whose value is the next argument. -/
  | awaiting (setting : Setting)
  /-- The wish for statistics. -/
  | stats
  /-- The wish for the version. -/
  | version
  /-- The wish for help. -/
  | help
  /-- The mark after which every argument is a path. -/
  | pathsOnly
  /-- Anything else. -/
  | unknown
deriving Repr, Inhabited, DecidableEq

/-- What follows the letter of an option in the same argument; one equals sign in front of a value is
    dropped. -/
def attachedArgument (setting : Setting) : List Char → Argument
  | [] => .awaiting setting
  | '=' :: value => .attached setting (String.ofList value)
  | value => .attached setting (String.ofList value)

/-- Reads an argument that starts with two hyphens, without these. -/
def longArgument (body : List Char) : Argument :=
  let name := String.ofList (body.takeWhile (· != '='))
  match body.dropWhile (· != '=') with
  | [] =>
    if name = "config" then .awaiting .config
    else if name = "steps" then .awaiting .steps
    else if name = "stats" then .stats
    else if name = "version" then .version
    else if name = "help" then .help
    else .unknown
  | _ :: value =>
    if name = "config" then .attached .config (String.ofList value)
    else if name = "steps" then .attached .steps (String.ofList value)
    else .unknown

/-- Reads an argument. -/
def Argument.read (argument : String) : Argument :=
  match argument.toList with
  | ['-'] => .position argument
  | ['-', '-'] => .pathsOnly
  | '-' :: '-' :: body => longArgument body
  | '-' :: 'c' :: rest => attachedArgument .config rest
  | '-' :: 'n' :: rest => attachedArgument .steps rest
  | '-' :: 'V' :: _ => .version
  | '-' :: 'h' :: _ => .help
  | '-' :: _ => .unknown
  | _ => .position argument

/-- Whether an argument can be the value of the option before it. -/
def isValue (argument : String) : Bool :=
  match argument.toList with
  | ['-'] => true
  | '-' :: _ => false
  | _ => true

/-- Takes arguments from left to right. A wish for the version or for help is granted at once. -/
def takeAll (t : Taken) : List String → Option Request
  | [] => t.finish
  | argument :: rest =>
    match Argument.read argument with
    | .position path => (t.position path).bind (takeAll · rest)
    | .attached setting value => (setting.take t value).bind (takeAll · rest)
    | .awaiting setting =>
      match rest with
      | value :: rest =>
        if isValue value then (setting.take t value).bind (takeAll · rest) else none
      | [] => none
    | .stats => t.setStats.bind (takeAll · rest)
    | .version => some .version
    | .help => some .help
    | .pathsOnly => (rest.foldlM Taken.position t).bind Taken.finish
    | .unknown => none

/-- The request made by a list of arguments, unless they make none. -/
def Request.ofArguments? (arguments : List String) : Option Request :=
  takeAll {} arguments

end Netlist.CommandLine
