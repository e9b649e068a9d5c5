/-
Module: Netlist.Json.Record
Layer: Json
Purpose: Records with named fields. A record is written as an object, in which unknown members are
  ignored and a known field stands at most once, or as an array of its fields in their order, of which
  the last ones may be missing.
Imports: Netlist.Json.Basic
Main exports: Json.fields?, Json.required, Json.optional
-/
import Netlist.Json.Basic

namespace Netlist.Json

/-- The value of the field `name` among the members of an object: none if it is missing. A field that
    is given twice makes the record unreadable. -/
def member? (members : List (Option String × Json)) (name : String) : Option (Option Json) :=
  match members.filter (fun m => m.1 == some name) with
  | [] => some none
  | [m] => some (some m.2)
  | _ => none

/-- The values of the fields `names` of a record, in their order, with none for a missing field. -/
def fields? (names : List String) : Json → Option (List (Option Json))
  | .obj members =>
    if members.all (fun m => m.1.isSome) then names.mapM (member? members) else none
  | .arr items =>
    if items.length ≤ names.length then
      some (items.map some ++ List.replicate (names.length - items.length) none)
    else none
  | _ => none

/-- Reads a field that has to be there. -/
def required {α : Type} (read : Json → Option α) : Option Json → Option α
  | none => none
  | some v => read v

/-- Reads a field that takes a default when it is missing. -/
def optional {α : Type} (default : α) (read : Json → Option α) : Option Json → Option α
  | none => some default
  | some v => read v

end Netlist.Json
