/-
Module: Netlist.Config
Layer: Configuration
Purpose: The settings of a simulation. A configuration is read from JSON with a section for each topic;
  missing sections and missing fields take their defaults. The limit of bus widths lies between one and
  the widest bus in every configuration there is.
Imports: Netlist.Error, Netlist.Json.Parser, Netlist.Json.Record
Main exports: Config, Config.standard, Config.Written, Config.parse
-/
import Netlist.Error
import Netlist.Json.Parser
import Netlist.Json.Record

namespace Netlist

/-- The settings of a simulation. -/
structure Config where
  /-- Log the inputs and outputs of every step. -/
  traceSteps : Bool
  /-- Count steps, gate evaluations, register commits and memory writes. -/
  collectStats : Bool
  /-- The word that a ROM address without a word reads. -/
  defaultWord : Word
  /-- Refuse images with fewer words than the ROM blocks have addresses. -/
  strictImageLength : Bool
  /-- The widest bus that a description may use. -/
  maxBusWidth : Nat
  /-- Some width is allowed. -/
  one_le_maxBusWidth : 1 ≤ maxBusWidth
  /-- No width above the widest bus is allowed. -/
  maxBusWidth_le : maxBusWidth ≤ Word.maxWidth
deriving Repr, DecidableEq

namespace Config

/-- The settings that hold when nothing else is said: steps are counted but not traced, an address
    without a word reads zero, short images are accepted and every bus width is allowed. -/
def standard : Config where
  traceSteps := false
  collectStats := true
  defaultWord := 0
  strictImageLength := false
  maxBusWidth := Word.maxWidth
  one_le_maxBusWidth := Nat.le_of_ble_eq_true rfl
  maxBusWidth_le := Nat.le_refl Word.maxWidth

instance : Inhabited Config :=
  ⟨standard⟩

/-- The settings as they are written, before the limit of bus widths has been checked. -/
structure Written where
  /-- Log the inputs and outputs of every step. -/
  traceSteps : Bool
  /-- Count what happens in steps. -/
  collectStats : Bool
  /-- The word that a ROM address without a word reads. -/
  defaultWord : Word
  /-- Refuse short images. -/
  strictImageLength : Bool
  /-- The widest bus that a description may use. -/
  maxBusWidth : UInt32
deriving Repr, Inhabited, DecidableEq

/-- Reads the section on simulation in general: step tracing and counting. -/
def general? (v : Json) : Option (Bool × Bool) :=
  match v.fields? ["trace_steps", "collect_stats"] with
  | some [traceSteps, collectStats] => do
    let traceSteps ← Json.optional false Json.toBool? traceSteps
    let collectStats ← Json.optional true Json.toBool? collectStats
    some (traceSteps, collectStats)
  | _ => none

/-- Reads the section on ROM images: the default word and the strictness about length. -/
def rom? (v : Json) : Option (Word × Bool) :=
  match v.fields? ["default_word", "strict_image_length"] with
  | some [defaultWord, strictImageLength] => do
    let defaultWord ← Json.optional 0 Json.toUInt64? defaultWord
    let strictImageLength ← Json.optional false Json.toBool? strictImageLength
    some (defaultWord, strictImageLength)
  | _ => none

/-- Reads the section on compilation: the limit of bus widths. -/
def netlist? (v : Json) : Option UInt32 :=
  match v.fields? ["max_bus_width"] with
  | some [maxBusWidth] => Json.optional 64 Json.toUInt32? maxBusWidth
  | _ => none

/-- Reads a configuration as it is written. -/
def Written.ofJson? (v : Json) : Option Written :=
  match v.fields? ["general", "rom", "netlist"] with
  | some [general, rom, netlist] => do
    let (traceSteps, collectStats) ← Json.optional (false, true) general? general
    let (defaultWord, strictImageLength) ← Json.optional (0, false) rom? rom
    let maxBusWidth ← Json.optional 64 netlist? netlist
    some { traceSteps, collectStats, defaultWord, strictImageLength, maxBusWidth }
  | _ => none

/-- Checks the limit of bus widths. -/
def Written.check (w : Written) : Except ConfigError Config :=
  if h : 1 ≤ w.maxBusWidth.toNat ∧ w.maxBusWidth.toNat ≤ Word.maxWidth then
    .ok {
      traceSteps := w.traceSteps
      collectStats := w.collectStats
      defaultWord := w.defaultWord
      strictImageLength := w.strictImageLength
      maxBusWidth := w.maxBusWidth.toNat
      one_le_maxBusWidth := h.1
      maxBusWidth_le := h.2 }
  else .error (.invalidBusWidth w.maxBusWidth.toNat)

/-- Reads the text of a configuration. -/
def parse (text : List Char) : Except ConfigError Config :=
  match (Json.parse? text).bind Written.ofJson? with
  | some written => written.check
  | none => .error .malformed

end Config

end Netlist
