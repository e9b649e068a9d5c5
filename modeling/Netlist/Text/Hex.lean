/-
Module: Netlist.Text.Hex
Layer: Text
Purpose: Reading hexadecimal words. The same rule reads the words of a ROM image and the values typed
  at a prompt: an optional mark `0x` or `0X`, an optional plus sign, then one or more digits of either
  case whose value stays below 2⁶⁴.
Imports: Netlist.Word
Main exports: Text.Hex.digitValue, Text.Hex.positional, Text.Hex.parse
-/
import Netlist.Word

namespace Netlist.Text.Hex

/-- The value of a hexadecimal digit. -/
def digitValue (c : Char) : Option Nat :=
  if '0' ≤ c ∧ c ≤ '9' then some (c.toNat - '0'.toNat)
  else if 'a' ≤ c ∧ c ≤ 'f' then some (c.toNat - 'a'.toNat + 10)
  else if 'A' ≤ c ∧ c ≤ 'F' then some (c.toNat - 'A'.toNat + 10)
  else none

/-- The value of a row of hexadecimal digits, most significant first. -/
def positional (digits : List Char) : Option Nat :=
  digits.foldlM (fun value c => (digitValue c).map (16 * value + ·)) 0

/-- Drops one mark `0x` or `0X` from the front. -/
def dropMark : List Char → List Char
  | '0' :: 'x' :: rest => rest
  | '0' :: 'X' :: rest => rest
  | token => token

/-- Drops one plus sign from the front. -/
def dropPlus : List Char → List Char
  | '+' :: rest => rest
  | token => token

/-- Reads a token as a word, or refuses it. -/
def parse (token : List Char) : Option Word :=
  match dropPlus (dropMark token) with
  | [] => none
  | digits =>
    match positional digits with
    | some value => if value < UInt64.size then some (UInt64.ofNat value) else none
    | none => none

end Netlist.Text.Hex
