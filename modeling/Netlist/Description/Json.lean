/-
Module: Netlist.Description.Json
Layer: Description
Purpose: The JSON form of descriptions, in both directions. Reading fills in defaults for missing
  fields and ignores unknown ones; writing leaves out empty parameter lists and absent power-on values
  and widths. An operand is told apart by its shape: a string is a net, an object is a constant.
Imports: Netlist.Description.Basic, Netlist.Json.Parser, Netlist.Json.Printer, Netlist.Json.Record
Main exports: Description.ofJson?, Description.parse?, Description.toJson, Description.render
-/
import Netlist.Description.Basic
import Netlist.Json.Parser
import Netlist.Json.Printer
import Netlist.Json.Record

namespace Netlist

/-!
### Reading
-/

/-- Reads an operation: its keyword, or an object that maps this one keyword to `null`. -/
def Op.ofJson? : Json → Option Op
  | .str (some name) => Op.ofName? name
  | .obj [(some name, .null)] => Op.ofName? name
  | _ => none

/-- The greatest height of a constant's object. A text may nest 127 containers inside operands, and an
    operand stands inside four: the description, its equations, one of them, and its operands. -/
def Operand.heightLimit : Nat := 127 - 4

/-- Reads an operand. Members of a constant that are not used still have to be readable. -/
def Operand.ofJson? (v : Json) : Option Operand :=
  match v with
  | .str (some name) => some (.net name)
  | .obj _ =>
    if v.isReadable && decide (v.height ≤ heightLimit) then
      match v.fields? ["value", "width"] with
      | some [value, width] => do
        let value ← Json.required Json.toUInt64? value
        let width ← Json.optional none (Json.toOption? Json.toUInt32?) width
        some (.const value width)
      | _ => none
    else none
  | _ => none

/-- Reads the declaration of a net. A net without a width is a single wire. -/
def NetDecl.ofJson? (v : Json) : Option NetDecl :=
  match v.fields? ["name", "width"] with
  | some [name, width] => do
    let name ← Json.required Json.toString? name
    let width ← Json.optional 1 Json.toUInt32? width
    some { name, width }
  | _ => none

/-- Reads an equation. -/
def Equation.ofJson? (v : Json) : Option Equation :=
  match v.fields? ["target", "op", "args", "params", "init"] with
  | some [target, op, args, params, init] => do
    let target ← Json.required Json.toString? target
    let op ← Json.required Op.ofJson? op
    let args ← Json.optional [] (Json.toList? Operand.ofJson?) args
    let params ← Json.optional [] (Json.toList? Json.toUInt32?) params
    let init ← Json.optional none (Json.toOption? Json.toUInt64?) init
    some { target, op, args, params, init }
  | _ => none

namespace Description

/-- The name of a circuit whose description gives none. -/
def defaultName : String := "netlist"

/-- Reads a description. -/
def ofJson? (v : Json) : Option Description :=
  match v.fields? ["name", "inputs", "outputs", "nets", "equations"] with
  | some [name, inputs, outputs, nets, equations] => do
    let name ← Json.optional defaultName Json.toString? name
    let inputs ← Json.optional [] (Json.toList? Json.toString?) inputs
    let outputs ← Json.optional [] (Json.toList? Json.toString?) outputs
    let nets ← Json.optional [] (Json.toList? NetDecl.ofJson?) nets
    let equations ← Json.optional [] (Json.toList? Equation.ofJson?) equations
    some { name, inputs, outputs, nets, equations }
  | _ => none

/-- Reads the text of a description. -/
def parse? (text : List Char) : Option Description :=
  (Json.parse? text).bind ofJson?

end Description

/-!
### Writing
-/

/-- Writes an operand. -/
def Operand.toJson : Operand → Json
  | .net name => .ofString name
  | .const value none => .obj [(some "value", .ofNat value.toNat)]
  | .const value (some width) =>
    .obj [(some "value", .ofNat value.toNat), (some "width", .ofNat width.toNat)]

/-- Writes the declaration of a net. -/
def NetDecl.toJson (d : NetDecl) : Json :=
  .obj [(some "name", .ofString d.name), (some "width", .ofNat d.width.toNat)]

/-- Writes an equation. -/
def Equation.toJson (eq : Equation) : Json :=
  .obj ([(some "target", .ofString eq.target),
      (some "op", .ofString eq.op.name),
      (some "args", .arr (eq.args.map Operand.toJson))] ++
    (if eq.params.isEmpty then []
      else [(some "params", .arr (eq.params.map (fun p => .ofNat p.toNat)))]) ++
    (match eq.init with
      | none => []
      | some value => [(some "init", .ofNat value.toNat)]))

namespace Description

/-- Writes a description. -/
def toJson (d : Description) : Json :=
  .obj [(some "name", .ofString d.name),
    (some "inputs", .arr (d.inputs.map Json.ofString)),
    (some "outputs", .arr (d.outputs.map Json.ofString)),
    (some "nets", .arr (d.nets.map NetDecl.toJson)),
    (some "equations", .arr (d.equations.map Equation.toJson))]

/-- The text of a description. -/
def render (d : Description) : List Char :=
  d.toJson.render

end Description

end Netlist
