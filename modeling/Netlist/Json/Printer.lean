/-
Module: Netlist.Json.Printer
Layer: Json
Purpose: Writing a JSON value with one item or member on each line, indented by two spaces for each
  open container. Empty containers are written in one piece.
Imports: Netlist.Json.Basic
Main exports: Json.escapeChar, Json.renderString, Json.render
-/
import Netlist.Json.Basic

namespace Netlist.Json

/-- The digits of a 16-bit unit in base sixteen, lower case, four of them. -/
def unitDigits (unit : Nat) : List Char :=
  [unit / 0x1000 % 16, unit / 0x100 % 16, unit / 0x10 % 16, unit % 16].map Nat.digitChar

/-- How a character is written inside a string. Quotation marks, backslashes and control characters
    are escaped; everything else stands for itself. -/
def escapeChar (c : Char) : List Char :=
  if c = '"' then ['\\', '"']
  else if c = '\\' then ['\\', '\\']
  else if c = '\x08' then ['\\', 'b']
  else if c = '\x0c' then ['\\', 'f']
  else if c = '\n' then ['\\', 'n']
  else if c = '\r' then ['\\', 'r']
  else if c = '\t' then ['\\', 't']
  else if c.toNat < 0x20 then '\\' :: 'u' :: unitDigits c.toNat
  else [c]

/-- The written form of a string. A string that names no text is written as half of a surrogate pair,
    which names none either. -/
def renderString : Option String → List Char
  | some text => '"' :: (text.toList.flatMap escapeChar ++ ['"'])
  | none => '"' :: '\\' :: 'u' :: (unitDigits 0xD800 ++ ['"'])

/-- A new line at the given depth of nesting. -/
def newline (depth : Nat) : List Char :=
  '\n' :: List.replicate (2 * depth) ' '

mutual

/-- The written form of a value that stands at the given depth of nesting. -/
def renderAt (depth : Nat) : Json → List Char
  | .null => ['n', 'u', 'l', 'l']
  | .bool true => ['t', 'r', 'u', 'e']
  | .bool false => ['f', 'a', 'l', 's', 'e']
  | .num n => n.render
  | .str text => renderString text
  | .arr [] => ['[', ']']
  | .arr (v :: rest) =>
    '[' :: (newline (depth + 1) ++ renderAt (depth + 1) v ++ renderItems depth rest ++
      newline depth ++ [']'])
  | .obj [] => ['\x7b', '\x7d']
  | .obj ((key, v) :: rest) =>
    '\x7b' :: (newline (depth + 1) ++ renderString key ++ [':', ' '] ++ renderAt (depth + 1) v ++
      renderMembers depth rest ++ newline depth ++ ['\x7d'])

/-- The written form of the further items of an array that stands at the given depth. -/
def renderItems (depth : Nat) : List Json → List Char
  | [] => []
  | v :: rest => ',' :: (newline (depth + 1) ++ renderAt (depth + 1) v ++ renderItems depth rest)

/-- The written form of the further members of an object that stands at the given depth. -/
def renderMembers (depth : Nat) : List (Option String × Json) → List Char
  | [] => []
  | (key, v) :: rest =>
    ',' :: (newline (depth + 1) ++ renderString key ++ [':', ' '] ++ renderAt (depth + 1) v ++
      renderMembers depth rest)

end

/-- The written form of a value. -/
def render (v : Json) : List Char :=
  renderAt 0 v

end Netlist.Json
