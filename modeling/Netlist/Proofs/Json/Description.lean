/-
Module: Netlist.Proofs.Json.Description
Layer: Proofs
Purpose: Descriptions read back from their text. Every part of a description is read from the value it is
  written as: names whatever characters they hold, widths and parameters of 32 bits, constants of 64, and
  the fields that writing leaves out because reading fills them in. Nothing is asked of the description:
  it need not make sense as a circuit.
Imports: Netlist.Description.Json, Netlist.Proofs.Json.RoundTrip
Main exports: Op.ofJson?_name, Operand.ofJson?_toJson, NetDecl.ofJson?_toJson, Equation.ofJson?_toJson,
  Description.ofJson?_toJson, Description.legible_toJson, Description.parse?_render
-/
import Netlist.Description.Json
import Netlist.Proofs.Json.RoundTrip

namespace Netlist

/-!
### Lists
-/

namespace Json

variable {α : Type} {write : α → Json}

/-- A list reads back when its entries do. -/
theorem toList?_map {read : Json → Option α} (h : ∀ a, read (write a) = some a) (items : List α) :
    toList? read (.arr (items.map write)) = some items := by
  rw [toList?]
  induction items with
  | nil => rfl
  | cons a rest ih => simp [h, ih]

theorem legible_map (h : ∀ a, (write a).Legible) (items : List α) :
    (Json.arr (items.map write)).Legible := by
  rw [Legible]
  induction items with
  | nil => trivial
  | cons a rest ih => exact ⟨h a, ih⟩

theorem legible_ofNat (n : Nat) : (ofNat n).Legible :=
  Number.legible_ofNat n

theorem legible_ofString (text : String) : (ofString text).Legible :=
  trivial

@[simp] theorem toString?_ofString (text : String) : (ofString text).toString? = some text :=
  rfl

/-- A count is not `null`, so it is read as a value that is there. -/
@[simp] theorem toOption?_ofNat (read : Json → Option α) (n : Nat) :
    toOption? read (ofNat n) = (read (ofNat n)).map some :=
  rfl

end Json

/-!
### Parts of a description
-/

/-- An operation is read from its keyword. -/
theorem Op.ofJson?_name (op : Op) : Op.ofJson? (.ofString op.name) = some op := by
  cases op <;> decide

/-- A constant is an object of one level, without anything that could not be read. -/
theorem Operand.readable_toJson (value : Word) (width : Option UInt32) :
    ((Operand.const value width).toJson.isReadable &&
      decide ((Operand.const value width).toJson.height ≤ heightLimit)) = true := by
  have hvalue : (Json.Number.ofNat value.toNat).isFinite = true :=
    Json.Number.isFinite_ofNat value.toNat_lt_size
  cases width with
  | none =>
      simp [toJson, Json.ofNat, Json.isReadable, Json.areReadableMembers, hvalue, Json.height,
        Json.heightMembers, heightLimit]
  | some width =>
      have hwidth : (Json.Number.ofNat width.toNat).isFinite = true :=
        Json.Number.isFinite_ofNat (Nat.lt_trans width.toNat_lt_size (by decide))
      simp [toJson, Json.ofNat, Json.isReadable, Json.areReadableMembers, hvalue, hwidth, Json.height,
        Json.heightMembers, heightLimit]

theorem Operand.ofJson?_toJson (a : Operand) : Operand.ofJson? a.toJson = some a := by
  cases a with
  | net name => rfl
  | const value width =>
      have hreadable := Operand.readable_toJson value width
      cases width with
      | none =>
          rw [toJson] at hreadable ⊢
          rw [ofJson?, if_pos hreadable]
          simp [Json.fields?, Json.member?, Json.required, Json.optional]
      | some width =>
          rw [toJson] at hreadable ⊢
          rw [ofJson?, if_pos hreadable]
          simp [Json.fields?, Json.member?, Json.required, Json.optional]

theorem NetDecl.ofJson?_toJson (decl : NetDecl) : NetDecl.ofJson? decl.toJson = some decl := by
  simp [ofJson?, toJson, Json.fields?, Json.member?, Json.required, Json.optional]

/-- The fields that an equation is written with: parameters and a power-on value only when it has any. -/
theorem Equation.fields?_toJson (eq : Equation) :
    eq.toJson.fields? ["target", "op", "args", "params", "init"] =
      some [some (.ofString eq.target), some (.ofString eq.op.name),
        some (.arr (eq.args.map Operand.toJson)),
        if eq.params.isEmpty then none else some (.arr (eq.params.map (fun p => .ofNat p.toNat))),
        eq.init.map (fun value => .ofNat value.toNat)] := by
  rcases eq with ⟨target, op, args, params, init⟩
  cases params <;> cases init <;> simp [toJson, Json.fields?, Json.member?]

theorem Equation.ofJson?_toJson (eq : Equation) : Equation.ofJson? eq.toJson = some eq := by
  have hparams : Json.optional [] (Json.toList? Json.toUInt32?)
      (if eq.params.isEmpty then none
        else some (.arr (eq.params.map (fun p => .ofNat p.toNat)))) = some eq.params := by
    split
    · next hempty => rw [List.isEmpty_iff.1 hempty, Json.optional]
    · exact Json.toList?_map Json.toUInt32?_ofNat eq.params
  have hinit : Json.optional none (Json.toOption? Json.toUInt64?)
      (eq.init.map (fun value => .ofNat value.toNat)) = some eq.init := by
    cases eq.init with
    | none => rfl
    | some value => simp [Json.optional]
  rw [ofJson?, fields?_toJson]
  simp only [hparams, hinit]
  simp [Json.required, Json.optional, eq.op.ofJson?_name,
    Json.toList?_map Operand.ofJson?_toJson eq.args]

theorem Description.ofJson?_toJson (d : Description) : ofJson? d.toJson = some d := by
  have hnames : ∀ names : List String,
      Json.toList? Json.toString? (.arr (names.map Json.ofString)) = some names :=
    Json.toList?_map (fun _ => rfl)
  simp [ofJson?, toJson, Json.fields?, Json.member?, Json.optional, hnames,
    Json.toList?_map NetDecl.ofJson?_toJson, Json.toList?_map Equation.ofJson?_toJson]

/-!
### Texts
-/

theorem Operand.legible_toJson (a : Operand) : a.toJson.Legible := by
  cases a with
  | net name => trivial
  | const value width =>
      cases width with
      | none => exact ⟨Json.legible_ofNat _, trivial⟩
      | some width => exact ⟨Json.legible_ofNat _, Json.legible_ofNat _, trivial⟩

theorem NetDecl.legible_toJson (decl : NetDecl) : decl.toJson.Legible :=
  ⟨trivial, Json.legible_ofNat _, trivial⟩

theorem Equation.legible_toJson (eq : Equation) : eq.toJson.Legible := by
  have hargs := Json.legible_map Operand.legible_toJson eq.args
  have hparams := Json.legible_map (fun p : UInt32 => Json.legible_ofNat p.toNat) eq.params
  rcases eq with ⟨target, op, args, params, init⟩
  cases params with
  | nil =>
      cases init with
      | none => exact ⟨trivial, trivial, hargs, trivial⟩
      | some value => exact ⟨trivial, trivial, hargs, Json.legible_ofNat _, trivial⟩
  | cons p rest =>
      cases init with
      | none => exact ⟨trivial, trivial, hargs, hparams, trivial⟩
      | some value => exact ⟨trivial, trivial, hargs, hparams, Json.legible_ofNat _, trivial⟩

namespace Description

theorem legible_toJson (d : Description) : d.toJson.Legible :=
  ⟨trivial, Json.legible_map Json.legible_ofString d.inputs,
    Json.legible_map Json.legible_ofString d.outputs, Json.legible_map NetDecl.legible_toJson d.nets,
    Json.legible_map Equation.legible_toJson d.equations, trivial⟩

/-- Every description reads back from its text. -/
theorem parse?_render (d : Description) : parse? d.render = some d := by
  rw [parse?, render, Json.parse?_render_of_legible d.legible_toJson, Option.bind_some,
    ofJson?_toJson]

end Description

end Netlist
