/-
Module: Netlist.CommandLine.Program
Layer: CommandLine
Purpose: The program as a function of its arguments, its files and what is typed: the configuration is
  loaded first, then the description, which is compiled, then the ROM image; then the circuit runs at
  the console. The first failure ends the program.
Imports: Netlist.CommandLine.Arguments, Netlist.Console.Session, Netlist.Files
Main exports: Failure, Arguments.prepare, Outcome, Program.run
-/
import Netlist.CommandLine.Arguments
import Netlist.Console.Session
import Netlist.Files

namespace Netlist.CommandLine

open Netlist.Console

/-- Why the program fails. -/
inductive Failure where
  | config (fault : ConfigError)
  | netlist (fault : NetlistError)
  | rom (fault : RomError)
  | session (fault : SessionError)
deriving Repr, Inhabited, DecidableEq

/-- The wording of a failure. -/
def Failure.message : Failure → String
  | .config fault => fault.message
  | .netlist fault => fault.message
  | .rom fault => fault.message
  | .session fault => fault.message

/-- The name and the version of the program. -/
def versionText : String :=
  "nlsim 0.3.0"

/-- How the program is called. -/
def usageText : String :=
  "Usage: nlsim [--config FILE] [--steps N] [--stats] NETLIST [ROM]"

/-- The configuration that the arguments ask for. -/
def Arguments.loadConfig (arguments : Arguments) (files : Files) : Except Failure Config :=
  match arguments.config with
  | none => .ok .standard
  | some path => (files.loadConfig path).mapError .config

/-- The ROM contents that the arguments ask for. -/
def Arguments.loadRom (arguments : Arguments) (files : Files) (store : RomStore) :
    Except Failure RomStore :=
  match arguments.rom with
  | none => .ok store
  | some path => (files.loadRom path store).mapError .rom

/-- Loads everything that the arguments name and starts a simulation. -/
def Arguments.prepare (arguments : Arguments) (files : Files) : Except Failure Simulator := do
  let config ← arguments.loadConfig files
  let description ← (files.loadDescription arguments.netlist).mapError .netlist
  let circuit ← (description.compile config).mapError .netlist
  let rom ← arguments.loadRom files (RomStore.ofCircuit circuit config)
  .ok (Simulator.create circuit rom config)

/-- The events of loading everything that the arguments name. -/
def Arguments.prepareEvents (arguments : Arguments) (files : Files) : List Event :=
  match arguments.loadConfig files, files.loadDescription arguments.netlist with
  | .ok config, .ok description =>
    files.loadDescriptionEvents arguments.netlist ++ description.compileEvents config ++
      match description.compile config with
      | .error _ => []
      | .ok circuit =>
        let store := RomStore.ofCircuit circuit config
        (match arguments.rom with
          | none => []
          | some path => files.loadRomEvents path store) ++
        (match arguments.loadRom files store with
          | .ok rom => Simulator.createEvents circuit rom
          | .error _ => [])
  | _, _ => []

/-- What the program leaves behind. -/
structure Outcome where
  /-- The exit code. -/
  code : Nat
  /-- What has been printed. -/
  printed : String := ""
  /-- Why the program has failed. -/
  failure : Option Failure := none
  /-- The lines of the statistics. -/
  statistics : List String := []
deriving Repr, Inhabited, DecidableEq

namespace Program

/-- Runs the circuit that the arguments ask for. -/
def simulate (arguments : Arguments) (files : Files) (typed : List UInt8) : Outcome :=
  match arguments.prepare files with
  | .error failure => { code := 1, failure := some failure }
  | .ok sim =>
    let session := Session.complete sim arguments.steps typed
    match session.ending with
    | .failed fault =>
      { code := 1, printed := session.printed, failure := some (.session fault) }
    | _ =>
      { code := 0
        printed := session.printed
        statistics := if arguments.stats then session.simulator.stats.report else [] }

/-- Runs the program. -/
def run (arguments : List String) (files : Files) (typed : List UInt8) : Outcome :=
  match Request.ofArguments? arguments with
  | none => { code := 2 }
  | some .version => { code := 0, printed := versionText ++ "\n" }
  | some .help => { code := 0, printed := usageText ++ "\n" }
  | some (.run arguments) => simulate arguments files typed

end Program

end Netlist.CommandLine
