/-
Module: Netlist.Proofs.Text.Utf8
Layer: Proofs
Purpose: Encoding and decoding. From between two characters, the bytes of a character are read as this
  character and lead back between two characters, so the encoding of a text decodes to the text. A byte
  below 0x80 stands for its own character alone, so only a newline has the byte of a newline in its encoding.
Imports: Netlist.Proofs.Text.ByteOrder
Main exports: Text.Utf8.foldl_advance_utf8EncodeChar, Text.Utf8.decode?_flatMap,
  Text.Utf8.eq_of_mem_utf8EncodeChar, Text.Utf8.eq_newline_of_mem_utf8EncodeChar
-/
import Netlist.Proofs.Text.ByteOrder

namespace Netlist.Text.Utf8

/-!
### One character
-/

/-- The last byte of a character. -/
theorem feed_last {gathered low high b : Nat} (hlow : low ≤ b) (hhigh : b ≤ high) :
    feed (.inside gathered 1 low high) b = (.start, [some (Char.ofNat (64 * gathered + (b - 0x80)))]) := by
  simp [feed, hlow, hhigh]

/-- A byte of a character that is not the last one. -/
theorem feed_more {gathered owed low high b : Nat} (howed : 1 < owed) (hlow : low ≤ b) (hhigh : b ≤ high) :
    feed (.inside gathered owed low high) b =
      (.inside (64 * gathered + (b - 0x80)) (owed - 1) 0x80 0xBF, []) := by
  simp [feed, hlow, hhigh, Nat.not_le.2 howed]

/-- The first byte of a character of two bytes. -/
theorem feed_two {v : Nat} (hlow : 0x7F < v) (hhigh : v ≤ 0x7FF) :
    feed .start (v / 64 % 32 + 0xC0) = (.inside (v / 64) 1 0x80 0xBF, []) := by
  have hgathered : v / 64 % 32 + 0xC0 - 0xC0 = v / 64 := by omega
  simp only [feed, lead]
  rw [if_neg (by omega), if_pos (by omega), hgathered]

/-- The first byte of a character of three bytes, with a range for the second byte that this byte is in. -/
theorem exists_feed_three {v : Nat} (hlow : 0x7FF < v) (hhigh : v ≤ 0xFFFF)
    (hvalid : v < 0xD800 ∨ 0xDFFF < v) :
    ∃ low high, feed .start (v / 4096 % 16 + 0xE0) = (.inside (v / 4096) 2 low high, []) ∧
      low ≤ v / 64 % 64 + 0x80 ∧ v / 64 % 64 + 0x80 ≤ high := by
  have hgathered : v / 4096 % 16 + 0xE0 - 0xE0 = v / 4096 := by omega
  simp only [feed, lead]
  rw [if_neg (by omega), if_neg (by omega)]
  by_cases hoverlong : v / 4096 = 0
  · rw [if_pos (by omega), hoverlong]
    exact ⟨0xA0, 0xBF, rfl, by omega, by omega⟩
  rw [if_neg (by omega)]
  by_cases hsurrogate : v / 4096 = 0xD
  · rw [if_pos (by omega), hsurrogate]
    exact ⟨0x80, 0x9F, rfl, by omega, by omega⟩
  rw [if_neg (by omega), if_pos (by omega), hgathered]
  exact ⟨0x80, 0xBF, rfl, by omega, by omega⟩

/-- The first byte of a character of four bytes, likewise. -/
theorem exists_feed_four {v : Nat} (hlow : 0xFFFF < v) (hhigh : v < 0x110000) :
    ∃ low high, feed .start (v / 262144 % 8 + 0xF0) = (.inside (v / 262144) 3 low high, []) ∧
      low ≤ v / 4096 % 64 + 0x80 ∧ v / 4096 % 64 + 0x80 ≤ high := by
  have hgathered : v / 262144 % 8 + 0xF0 - 0xF0 = v / 262144 := by omega
  simp only [feed, lead]
  rw [if_neg (by omega), if_neg (by omega), if_neg (by omega), if_neg (by omega), if_neg (by omega)]
  by_cases hoverlong : v / 262144 = 0
  · rw [if_pos (by omega), hoverlong]
    exact ⟨0x90, 0xBF, rfl, by omega, by omega⟩
  rw [if_neg (by omega)]
  by_cases hlast : v / 262144 = 4
  · rw [if_neg (by omega), if_pos (by omega), hlast]
    exact ⟨0x80, 0x8F, rfl, by omega, by omega⟩
  rw [if_pos (by omega), hgathered]
  exact ⟨0x80, 0xBF, rfl, by omega, by omega⟩

/-- A byte of a character moves the decoder on, and completes readings. -/
theorem advance_ofNat {state next : State} {made readings : List (Option Char)} {b : Nat} (hb : b < 256)
    (h : feed state b = (next, readings)) :
    advance (state, made) (UInt8.ofNat b) = (next, readings.reverse ++ made) := by
  unfold advance
  rw [UInt8.toNat_ofNat', Nat.mod_eq_of_lt hb, h]

/-- The bytes of a character are read as the character. -/
theorem foldl_advance_utf8EncodeChar (c : Char) (made : List (Option Char)) :
    (String.utf8EncodeChar c).foldl advance (.start, made) = (.start, some c :: made) := by
  have hvalid : c.val.toNat < 0xD800 ∨ (0xDFFF < c.val.toNat ∧ c.val.toNat < 0x110000) := c.valid
  have hchar : ∀ {v : Nat}, v = c.val.toNat → Char.ofNat v = c := by
    intro v hv
    rw [hv]
    exact Char.ofNat_toNat c
  unfold String.utf8EncodeChar
  simp only
  generalize c.val.toNat = v at hvalid hchar ⊢
  split_ifs with hone htwo hthree
  · have hlead : feed .start v = (.start, [some (Char.ofNat v)]) := by simp [feed, lead, hone]
    rw [List.foldl_cons, advance_ofNat (by omega) hlead, hchar rfl]
    rfl
  · rw [List.foldl_cons, advance_ofNat (by omega) (feed_two (by omega) htwo), List.foldl_cons,
      advance_ofNat (by omega) (feed_last (by omega) (by omega)), hchar (by omega)]
    rfl
  · rcases exists_feed_three (by omega) hthree (by omega) with ⟨low, high, hlead, hlow, hhigh⟩
    rw [List.foldl_cons, advance_ofNat (by omega) hlead, List.foldl_cons,
      advance_ofNat (by omega) (feed_more (by omega) hlow hhigh), List.foldl_cons,
      advance_ofNat (by omega) (feed_last (by omega) (by omega)), hchar (by omega)]
    rfl
  · rcases exists_feed_four (Nat.not_le.1 hthree) (by omega) with ⟨low, high, hlead, hlow, hhigh⟩
    rw [List.foldl_cons, advance_ofNat (by omega) hlead, List.foldl_cons,
      advance_ofNat (by omega) (feed_more (by omega) hlow hhigh), List.foldl_cons,
      advance_ofNat (by omega) (feed_more (by omega) (by omega) (by omega)), List.foldl_cons,
      advance_ofNat (by omega) (feed_last (by omega) (by omega)), hchar (by omega)]
    rfl

/-- A byte of a character is its code point or has its top bit set. -/
theorem toNat_of_mem_utf8EncodeChar {c : Char} {b : UInt8} (h : b ∈ String.utf8EncodeChar c) :
    b.toNat = c.val.toNat ∨ 0x80 ≤ b.toNat := by
  have htop : ∀ {n : Nat}, 0x80 ≤ n → n < 256 → 0x80 ≤ (UInt8.ofNat n).toNat := by
    intro n hlow hhigh
    rw [UInt8.toNat_ofNat', Nat.mod_eq_of_lt hhigh]
    exact hlow
  unfold String.utf8EncodeChar at h
  simp only at h
  generalize c.val.toNat = v at h ⊢
  split_ifs at h with hone htwo hthree
  · left
    rw [List.mem_singleton.1 h, UInt8.toNat_ofNat', Nat.mod_eq_of_lt (by omega)]
  all_goals
    right
    simp only [List.mem_cons, List.not_mem_nil, or_false] at h
  · rcases h with rfl | rfl <;> exact htop (by omega) (by omega)
  · rcases h with rfl | rfl | rfl <;> exact htop (by omega) (by omega)
  · rcases h with rfl | rfl | rfl | rfl <;> exact htop (by omega) (by omega)

/-- A byte below 0x80 is in the encoding of no other character than its own. -/
theorem eq_of_mem_utf8EncodeChar {c d : Char} {b : UInt8} (h : b ∈ String.utf8EncodeChar c)
    (hd : b.toNat = d.val.toNat) (hascii : b.toNat < 0x80) : c = d := by
  rcases toNat_of_mem_utf8EncodeChar h with hv | hhigh
  · exact Char.ext (UInt32.toNat_inj.1 (hv.symm.trans hd))
  · exact absurd hhigh (Nat.not_le.2 hascii)

/-- No other character has the byte of a newline in its encoding. -/
theorem eq_newline_of_mem_utf8EncodeChar {c : Char} (h : 0x0A ∈ String.utf8EncodeChar c) : c = '\n' :=
  eq_of_mem_utf8EncodeChar h rfl (by decide)

/-!
### Texts
-/

theorem foldl_advance_flatMap (text : List Char) (made : List (Option Char)) :
    (text.flatMap String.utf8EncodeChar).foldl advance (.start, made) =
      (.start, (text.map some).reverse ++ made) := by
  induction text generalizing made with
  | nil => rfl
  | cons c rest ih =>
      rw [List.flatMap_cons, List.foldl_append, foldl_advance_utf8EncodeChar, ih]
      simp

/-- The encoding of a text decodes to the text. -/
theorem decode?_flatMap (text : List Char) :
    decode? (text.flatMap String.utf8EncodeChar) = some text := by
  have hreadings : readings (text.flatMap String.utf8EncodeChar) = text.map some := by
    unfold readings
    rw [foldl_advance_flatMap]
    simp
  unfold decode?
  rw [hreadings, List.mapM_map]
  exact List.mapM_pure.trans (congrArg some (List.map_id text))

end Netlist.Text.Utf8
