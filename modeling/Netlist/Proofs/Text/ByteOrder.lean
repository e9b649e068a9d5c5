/-
Module: Netlist.Proofs.Text.ByteOrder
Layer: Proofs
Purpose: The order of names. Names are compared character by character, and their encodings byte by byte;
  both orders are the same, because a character with a larger code point has an encoding that is larger
  at the first byte that differs, and no encoding starts with another.
Imports: Mathlib.Data.String.Basic, Netlist.Text.Utf8
Main exports: Text.Utf8.encode_eq_flatMap, Text.Utf8.encode_lt_encode_iff
-/
import Mathlib.Data.String.Basic
import Netlist.Text.Utf8

namespace Netlist.Text.Utf8

/-!
### The bytes of a text
-/

theorem toList_loop (bytes : ByteArray) (i : Nat) (read : List UInt8) :
    ByteArray.toList.loop bytes i read = read.reverse ++ bytes.data.toList.drop i := by
  fun_induction ByteArray.toList.loop bytes i read with
  | case1 i read hlt ih =>
      have hget : bytes.data.toList.drop i = bytes.get! i :: bytes.data.toList.drop (i + 1) := by
        have hlength : i < bytes.data.toList.length := by simpa using hlt
        have hbyte : bytes.get! i = bytes.data[i] := getElem!_pos bytes.data i hlt
        rw [List.drop_eq_getElem_cons hlength, hbyte]
        rfl
      rw [ih, hget]
      simp
  | case2 i read hlt =>
      have hlength : bytes.data.toList.length ≤ i := by simpa using hlt
      rw [List.drop_eq_nil_of_le hlength, List.append_nil]

/-- The encoding of a text is the encodings of its characters, one after the other. -/
theorem encode_eq_flatMap (text : String) :
    encode text = text.toList.flatMap String.utf8EncodeChar := by
  have hbytes : text.toUTF8.data.toList = text.toList.flatMap String.utf8EncodeChar := by
    rw [String.toUTF8_eq_toByteArray, ← String.utf8Encode_toList, List.utf8Encode,
      List.toList_data_toByteArray]
  rw [encode, ByteArray.toList, toList_loop, ← hbytes]
  rfl

/-!
### One character
-/

/-- Code points of up to 21 bits are compared by their digits in base 64. -/
theorem digits_lt {v w : Nat} (h : v < w) (hw : w < 0x110000) :
    v / 262144 % 8 < w / 262144 % 8 ∨ v / 262144 % 8 = w / 262144 % 8 ∧
      (v / 4096 % 64 < w / 4096 % 64 ∨ v / 4096 % 64 = w / 4096 % 64 ∧
        (v / 64 % 64 < w / 64 % 64 ∨ v / 64 % 64 = w / 64 % 64 ∧ v % 64 < w % 64)) := by
  have hdigits : ∀ n < 0x110000,
      n = 262144 * (n / 262144 % 8) + 4096 * (n / 4096 % 64) + 64 * (n / 64 % 64) + n % 64 := by
    omega
  have hv := hdigits v (by omega)
  have hw := hdigits w hw
  have hmod : ∀ n, n % 64 < 64 := fun n => Nat.mod_lt n (by decide)
  have := hmod (v / 4096)
  have := hmod (v / 64)
  have := hmod v
  have := hmod (w / 4096)
  have := hmod (w / 64)
  have := hmod w
  generalize v / 262144 % 8 = v₃, v / 4096 % 64 = v₂, v / 64 % 64 = v₁, v % 64 = v₀ at *
  generalize w / 262144 % 8 = w₃, w / 4096 % 64 = w₂, w / 64 % 64 = w₁, w % 64 = w₀ at *
  omega

/-- A larger character has a larger encoding, whatever follows. -/
theorem utf8EncodeChar_lt {c d : Char} (h : c < d) (rest later : List UInt8) :
    String.utf8EncodeChar c ++ rest < String.utf8EncodeChar d ++ later := by
  have hlt : c.val.toNat < d.val.toNat := h
  have hmax : d.val.toNat < 0x110000 := by
    have hvalid : d.val.toNat < 0xD800 ∨ (0xDFFF < d.val.toNat ∧ d.val.toNat < 0x110000) := d.valid
    omega
  have hdigits := digits_lt hlt hmax
  -- no byte overflows
  have hbyte : ∀ n, (n % 64 + 128) % 256 = n % 64 + 128 ∧ (n % 32 + 192) % 256 = n % 32 + 192 ∧
      (n % 16 + 224) % 256 = n % 16 + 224 ∧ (n % 8 + 240) % 256 = n % 8 + 240 := by
    omega
  simp only [String.utf8EncodeChar]
  by_cases htail : rest < later
  all_goals
    split_ifs <;>
      simp only [List.cons_append, List.nil_append, List.cons_lt_cons_iff, UInt8.lt_iff_toNat_lt,
        ← UInt8.toNat_inj, UInt8.toNat_ofNat', Nat.reducePow, hbyte, Nat.add_lt_add_iff_right,
        Nat.add_right_cancel_iff, htail, and_true, and_false, or_false] <;>
      clear hbyte <;>
      omega

/-!
### Texts
-/

theorem flatMap_utf8EncodeChar_lt {cs ds : List Char} (h : cs < ds) :
    cs.flatMap String.utf8EncodeChar < ds.flatMap String.utf8EncodeChar := by
  induction h with
  | @nil d rest =>
      have hpos : String.utf8EncodeChar d ≠ [] := by simp
      obtain ⟨byte, bytes, hbytes⟩ := List.exists_cons_of_ne_nil hpos
      rw [List.flatMap_cons, hbytes]
      exact List.nil_lt_cons _ _
  | rel hlt => exact utf8EncodeChar_lt hlt _ _
  | cons _ ih =>
      rw [List.flatMap_cons, List.flatMap_cons]
      exact List.append_left_lt ih

theorem encode_lt_encode {s t : String} (h : s < t) : encode s < encode t := by
  rw [encode_eq_flatMap, encode_eq_flatMap]
  exact flatMap_utf8EncodeChar_lt (String.lt_iff_toList_lt.1 h)

/-- Texts are in the order of their encodings. -/
theorem encode_lt_encode_iff {s t : String} : encode s < encode t ↔ s < t := by
  refine ⟨?_, encode_lt_encode⟩
  intro h
  rcases lt_trichotomy s t with hlt | rfl | hgt
  · exact hlt
  · exact absurd h (List.lt_irrefl _)
  · exact absurd h (List.lt_asymm (encode_lt_encode hgt))

end Netlist.Text.Utf8
