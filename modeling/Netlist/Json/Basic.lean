/-
Module: Netlist.Json.Basic
Layer: Json
Purpose: JSON values as they stand in a text. Objects keep their members in order and with repetitions,
  numbers keep their spelling, and a string that escapes half of a surrogate pair is kept apart from
  every string that names a text, because such a string may be skipped but never used.
Imports: Netlist.Json.Number
Main exports: Json, Json.height, Json.isReadable
-/
import Netlist.Json.Number

namespace Netlist

/-- A JSON value. -/
inductive Json where
  | null
  | bool (value : Bool)
  | num (value : Json.Number)
  /-- A string: the text it names, or nothing when half of a surrogate pair makes it name none. -/
  | str (text : Option String)
  | arr (items : List Json)
  | obj (members : List (Option String × Json))
deriving Repr, Inhabited

namespace Json

mutual

/-- The number of arrays and objects that are open at the deepest point of a value. -/
def height : Json → Nat
  | .arr items => 1 + heightItems items
  | .obj members => 1 + heightMembers members
  | _ => 0

/-- The greatest height among the items of an array. -/
def heightItems : List Json → Nat
  | [] => 0
  | v :: rest => max (height v) (heightItems rest)

/-- The greatest height among the members of an object. -/
def heightMembers : List (Option String × Json) → Nat
  | [] => 0
  | (_, v) :: rest => max (height v) (heightMembers rest)

end

mutual

/-- Whether every string and key of a value names a text and every number is finite. -/
def isReadable : Json → Bool
  | .null => true
  | .bool _ => true
  | .num n => n.isFinite
  | .str text => text.isSome
  | .arr items => areReadable items
  | .obj members => areReadableMembers members

/-- Whether all items of an array are readable. -/
def areReadable : List Json → Bool
  | [] => true
  | v :: rest => isReadable v && areReadable rest

/-- Whether all members of an object are readable, their keys included. -/
def areReadableMembers : List (Option String × Json) → Bool
  | [] => true
  | (key, v) :: rest => key.isSome && isReadable v && areReadableMembers rest

end

/-- The string value that names `text`. -/
def ofString (text : String) : Json :=
  .str (some text)

/-- The number value of a count. -/
def ofNat (n : Nat) : Json :=
  .num (.ofNat n)

/-- The text of a string value. -/
def toString? : Json → Option String
  | .str text => text
  | _ => none

/-- The truth value of a Boolean. -/
def toBool? : Json → Option Bool
  | .bool value => some value
  | _ => none

/-- The count below `bound` that a number value spells. -/
def toNatBelow? (bound : Nat) : Json → Option Nat
  | .num n =>
    match n.toNat? with
    | some value => if value < bound then some value else none
    | none => none
  | _ => none

/-- The 32-bit count that a number value spells. -/
def toUInt32? (v : Json) : Option UInt32 :=
  (v.toNatBelow? UInt32.size).map UInt32.ofNat

/-- The 64-bit count that a number value spells. -/
def toUInt64? (v : Json) : Option UInt64 :=
  (v.toNatBelow? UInt64.size).map UInt64.ofNat

/-- The items of an array, each read by `read`. -/
def toList? {α : Type} (read : Json → Option α) : Json → Option (List α)
  | .arr items => items.mapM read
  | _ => none

/-- Reads a value that may be `null`, which stands for an absent one. -/
def toOption? {α : Type} (read : Json → Option α) : Json → Option (Option α)
  | .null => some none
  | v => (read v).map some

end Json

end Netlist
