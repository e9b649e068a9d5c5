/-
Module: Netlist.Text.Utf8
Layer: Text
Purpose: Decoding bytes as UTF-8. One pass over the bytes yields a list of readings, a character for
  each well-formed sequence and a blank reading for each maximal ill-formed piece. Strict decoding
  accepts the text only when no reading is blank; lenient decoding shows each blank reading as the
  replacement character.
Imports: none
Main exports: Text.Utf8.readings, Text.Utf8.decode?, Text.Utf8.decodeLossy
-/

namespace Netlist.Text.Utf8

/-- Where decoding stands between two bytes. -/
inductive State where
  /-- Between characters. -/
  | start
  /-- Inside a character: the bits gathered so far, the number of bytes still owed, and the range in
      which the next byte has to lie. -/
  | inside (gathered owed low high : Nat)
deriving Repr, Inhabited, DecidableEq

/-- The state after the first byte of a character, with the readings that this byte completes. The
    ranges of the second byte rule out overlong forms, surrogates and values above U+10FFFF. -/
def lead (b : Nat) : State × List (Option Char) :=
  if b ≤ 0x7F then (.start, [some (Char.ofNat b)])
  else if 0xC2 ≤ b ∧ b ≤ 0xDF then (.inside (b - 0xC0) 1 0x80 0xBF, [])
  else if b = 0xE0 then (.inside 0 2 0xA0 0xBF, [])
  else if b = 0xED then (.inside 0xD 2 0x80 0x9F, [])
  else if 0xE1 ≤ b ∧ b ≤ 0xEF then (.inside (b - 0xE0) 2 0x80 0xBF, [])
  else if b = 0xF0 then (.inside 0 3 0x90 0xBF, [])
  else if 0xF1 ≤ b ∧ b ≤ 0xF3 then (.inside (b - 0xF0) 3 0x80 0xBF, [])
  else if b = 0xF4 then (.inside 4 3 0x80 0x8F, [])
  else (.start, [none])

/-- One byte. A byte that cannot continue the character under way ends the ill-formed piece before
    it and is read afresh. -/
def feed : State → Nat → State × List (Option Char)
  | .start, b => lead b
  | .inside gathered owed low high, b =>
    if low ≤ b ∧ b ≤ high then
      let gathered := 64 * gathered + (b - 0x80)
      if owed ≤ 1 then (.start, [some (Char.ofNat gathered)])
      else (.inside gathered (owed - 1) 0x80 0xBF, [])
    else
      let (state, made) := lead b
      (state, none :: made)

/-- One byte, with the readings made so far held last reading first. -/
def advance (progress : State × List (Option Char)) (b : UInt8) : State × List (Option Char) :=
  let (state, made) := feed progress.1 b.toNat
  (state, made.reverse ++ progress.2)

/-- The readings of a byte sequence. A character cut off by the end is ill-formed. -/
def readings (bytes : List UInt8) : List (Option Char) :=
  match bytes.foldl advance (.start, []) with
  | (.start, made) => made.reverse
  | (.inside .., made) => (none :: made).reverse

/-- The text of a byte sequence, if it is well-formed throughout. -/
def decode? (bytes : List UInt8) : Option (List Char) :=
  (readings bytes).mapM id

/-- The text of a byte sequence with a replacement character for every ill-formed piece. -/
def decodeLossy (bytes : List UInt8) : List Char :=
  (readings bytes).map (·.getD '\uFFFD')

/-- The UTF-8 bytes of a text. -/
def encode (text : String) : List UInt8 :=
  text.toUTF8.toList

end Netlist.Text.Utf8
