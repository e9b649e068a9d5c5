/-
Module: Netlist.Text.Blank
Layer: Text
Purpose: White space. A character is blank when it has the Unicode property White_Space, and the words
  of a text are its longest runs of characters that are not blank.
Imports: none
Main exports: Text.isBlank, Text.words
-/

namespace Netlist.Text

/-- The ranges of code points with the property White_Space, in ascending order. -/
def blankRanges : List (Nat × Nat) :=
  [(0x9, 0xD), (0x20, 0x20), (0x85, 0x85), (0xA0, 0xA0), (0x1680, 0x1680), (0x2000, 0x200A),
   (0x2028, 0x2029), (0x202F, 0x202F), (0x205F, 0x205F), (0x3000, 0x3000)]

/-- Whether a character is white space. -/
def isBlank (c : Char) : Bool :=
  blankRanges.any (fun r => r.1 ≤ c.toNat && c.toNat ≤ r.2)

/-- Adds the word gathered so far, last character first, in front of the words after it. -/
def closeWord (gathered : List Char) (later : List (List Char)) : List (List Char) :=
  if gathered.isEmpty then later else gathered.reverse :: later

/-- The words of a text in whose first word `gathered` has been read, last character first. -/
def wordsFrom : List Char → List Char → List (List Char)
  | gathered, [] => closeWord gathered []
  | gathered, c :: rest =>
    if isBlank c then closeWord gathered (wordsFrom [] rest) else wordsFrom (c :: gathered) rest

/-- The words of a text, in order. -/
def words (text : List Char) : List (List Char) :=
  wordsFrom [] text

end Netlist.Text
