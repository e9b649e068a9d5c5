/-
Module: Netlist.Text.Quoted
Layer: Text
Purpose: Names in quotation marks, as log lines show them. Characters that cannot be shown by themselves
  are written as escapes, so that a quoted name is always one line of visible characters.
Imports: Netlist.Text.Concealed
Main exports: Text.quoteChar, Text.quote
-/
import Netlist.Text.Concealed

namespace Netlist.Text

/-- How a character is shown between quotation marks. -/
def quoteChar (c : Char) : List Char :=
  if c = '\x00' then ['\\', '0']
  else if c = '\t' then ['\\', 't']
  else if c = '\r' then ['\\', 'r']
  else if c = '\n' then ['\\', 'n']
  else if c = '\\' then ['\\', '\\']
  else if c = '"' then ['\\', '"']
  else if isConcealed c then
    ['\\', 'u', '\x7b'] ++ Nat.toDigits 16 c.toNat ++ ['\x7d']
  else [c]

/-- A name in quotation marks. -/
def quote (name : String) : String :=
  String.ofList ('"' :: (name.toList.flatMap quoteChar ++ ['"']))

end Netlist.Text
