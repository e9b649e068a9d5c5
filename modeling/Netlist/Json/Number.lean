/-
Module: Netlist.Json.Number
Layer: Json
Purpose: Numbers of a JSON text, kept as they are spelled. Counts and words are read from the spelling
  itself, so that `1.0` and `1e1` are not mistaken for integers; whether a number stays finite as a
  binary64 is decided in exact arithmetic.
Imports: Netlist.Numeric.Binary64
Main exports: Json.Number, Json.Number.read, Json.Number.toNat?, Json.Number.isFinite,
  Json.Number.render, Json.Number.ofNat
-/
import Netlist.Numeric.Binary64

namespace Netlist.Json

/-- The exponent part of a number: its sign and its digits. -/
structure Exponent where
  /-- Whether a minus sign is written. -/
  negative : Bool
  /-- The digits. -/
  digits : List Char
deriving Repr, Inhabited, DecidableEq

/-- A number as it is spelled. -/
structure Number where
  /-- Whether a minus sign is written. -/
  negative : Bool
  /-- The digits before the point. -/
  whole : List Char
  /-- The digits after the point; empty when there is no point. -/
  fraction : List Char
  /-- The exponent part, if there is one. -/
  exponent : Option Exponent
deriving Repr, Inhabited, DecidableEq

namespace Number

/-- The value of a decimal digit. -/
def digitValue (c : Char) : Nat :=
  c.toNat - '0'.toNat

/-- The value of a row of decimal digits. -/
def digitsValue (digits : List Char) : Nat :=
  digits.foldl (fun value c => 10 * value + digitValue c) 0

/-!
### Reading

A number is an optional minus sign, digits without a needless leading zero, an optional fraction and an
optional exponent, both with at least one digit.
-/

/-- Whether a row of digits may stand before the point: there is one, and zero stands alone. -/
def isWhole : List Char → Bool
  | [] => false
  | [_] => true
  | c :: _ => c != '0'

/-- Reads the exponent part, which has to be all that is left. -/
def readExponent (negative : Bool) (whole fraction rest : List Char) : Option Number :=
  match rest with
  | [] => some ⟨negative, whole, fraction, none⟩
  | mark :: rest =>
    if mark = 'e' ∨ mark = 'E' then
      let (minus, digits) :=
        match rest with
        | '-' :: digits => (true, digits)
        | '+' :: digits => (false, digits)
        | digits => (false, digits)
      if digits ≠ [] ∧ digits.all Char.isDigit then
        some ⟨negative, whole, fraction, some ⟨minus, digits⟩⟩
      else none
    else none

/-- Reads the digits before the point and what follows them. -/
def readUnsigned (negative : Bool) (run : List Char) : Option Number :=
  let whole := run.takeWhile Char.isDigit
  if isWhole whole then
    match run.dropWhile Char.isDigit with
    | '.' :: rest =>
      let fraction := rest.takeWhile Char.isDigit
      if fraction.isEmpty then none
      else readExponent negative whole fraction (rest.dropWhile Char.isDigit)
    | rest => readExponent negative whole [] rest
  else none

/-- Reads a whole run of characters as one number. -/
def read : List Char → Option Number
  | '-' :: run => readUnsigned true run
  | run => readUnsigned false run

/-!
### Values
-/

/-- The natural number spelled by bare digits. A sign, a fraction or an exponent makes a number
    something else than a count. -/
def toNat? (n : Number) : Option Nat :=
  match n with
  | ⟨false, whole, [], none⟩ => some (digitsValue whole)
  | _ => none

/-- The bound of a significand: it is kept in 64 bits. -/
def significandLimit : Nat := UInt64.size

/-- Takes digits before the point into the significand while it fits. The second part of the result
    counts the digits left out. -/
def gatherWhole : Nat → List Char → Nat × Nat
  | significand, [] => (significand, 0)
  | significand, c :: rest =>
    let next := 10 * significand + digitValue c
    if next < significandLimit then gatherWhole next rest else (significand, rest.length + 1)

/-- Takes digits after the point into the significand while it fits. The second part of the result
    counts the digits taken. -/
def gatherFraction : Nat → List Char → Nat × Nat
  | significand, [] => (significand, 0)
  | significand, c :: rest =>
    let next := 10 * significand + digitValue c
    if next < significandLimit then
      let (significand, taken) := gatherFraction next rest
      (significand, taken + 1)
    else (significand, 0)

/-- The significand and the power of ten of a number, both cut to what 64 bits of significand hold. -/
def parts (n : Number) : Nat × Int :=
  let (wholePart, skipped) := gatherWhole 0 n.whole
  let (significand, taken) := gatherFraction wholePart n.fraction
  let exponent : Int :=
    match n.exponent with
    | none => 0
    | some e => if e.negative then -(digitsValue e.digits : Int) else digitsValue e.digits
  (significand, skipped - taken + exponent)

/-- Whether the number has a finite binary64 reading: the rounded significand times the rounded power
    of ten stays below the value from which rounding leaves the finite range. Powers of ten above 308
    have no finite reading themselves. -/
def isFinite (n : Number) : Bool :=
  match n.parts with
  | (significand, exponent) =>
    if significand = 0 ∨ exponent < 0 then true
    else if 308 < exponent then false
    else
      Numeric.Binary64.roundNat significand * Numeric.Binary64.roundNat (Nat.pow 10 exponent.toNat) <
        Numeric.Binary64.overflowLimit

/-!
### Writing
-/

/-- The number spelled by the decimal digits of `n`. -/
def ofNat (n : Nat) : Number :=
  ⟨false, Nat.toDigits 10 n, [], none⟩

/-- The spelling of a number. -/
def render (n : Number) : List Char :=
  (if n.negative then ['-'] else []) ++ n.whole ++
    (if n.fraction.isEmpty then [] else '.' :: n.fraction) ++
    match n.exponent with
    | none => []
    | some e => 'e' :: (if e.negative then ['-'] else []) ++ e.digits

end Number

end Netlist.Json
