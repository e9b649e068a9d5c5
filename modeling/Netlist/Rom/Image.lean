/-
Module: Netlist.Rom.Image
Layer: Memory
Purpose: ROM images. An image is text: hexadecimal words set apart by white space, with comments from `#`
  to the end of the line. It ends at the end of input or at the first NUL byte. The image is scanned a
  byte at a time and no further than a given number of words: scanning stops where one word more would
  start.
Imports: Netlist.Error, Netlist.Text.Hex, Netlist.Text.Utf8
Main exports: RomImage, Scanner, Scanner.feed, RomImage.scan, RomImage.read
-/
import Netlist.Error
import Netlist.Text.Hex
import Netlist.Text.Utf8

namespace Netlist

/-- The words of a ROM image. -/
structure RomImage where
  /-- The words, in the order of the text. -/
  words : List Word
  /-- Whether scanning stopped before a word for which there was no room. -/
  truncated : Bool := false
deriving Repr, Inhabited, DecidableEq

/-- Where scanning stands between two bytes. -/
structure Scanner where
  /-- The words read so far. -/
  words : Array Word := #[]
  /-- The bytes of the token under way, last byte first. -/
  token : List UInt8 := []
  /-- The number of the current line, from one. -/
  line : Nat := 1
  /-- Whether the current line has turned into a comment. -/
  inComment : Bool := false
deriving Repr, Inhabited, DecidableEq

namespace Scanner

/-- The longest token, in bytes. -/
def tokenLimit : Nat := 32

/-- White space between words. -/
def isSpace (b : UInt8) : Bool :=
  b == 0x20 || b == 0x09 || b == 0x0A || b == 0x0C || b == 0x0D

/-- The word spelled by the bytes of a token. -/
def word? (token : List UInt8) : Option Word :=
  (Text.Utf8.decode? token).bind Text.Hex.parse

/-- The fault of a bad token, shown with a replacement character for every ill-formed piece. -/
def badToken (line : Nat) (token : List UInt8) (tail : String) : RomError :=
  .badToken line (String.ofList (Text.Utf8.decodeLossy token) ++ tail)

/-- Ends the token under way, if there is one. -/
def endToken (s : Scanner) : Except RomError Scanner :=
  if s.token.isEmpty then .ok s
  else
    match word? s.token.reverse with
    | some word => .ok { s with words := s.words.push word, token := [] }
    | none => .error (badToken s.line s.token.reverse "")

/-- Whether scanning goes on after a byte. -/
inductive Turn where
  /-- More bytes are wanted. -/
  | more (s : Scanner)
  /-- The image is over; it is truncated if a word had no room. -/
  | over (s : Scanner) (truncated : Bool)
deriving Repr, Inhabited, DecidableEq

/-- Reads one byte, when there is room for `limit` words. -/
def feed (limit : Nat) (s : Scanner) (b : UInt8) : Except RomError Turn :=
  if b = 0 then do
    let s ← s.endToken
    .ok (.over s false)
  else if b = 0x0A then do
    let s ← s.endToken
    .ok (.more { s with line := s.line + 1, inComment := false })
  else if b = 0x23 then do
    let s ← s.endToken
    .ok (.more { s with inComment := true })
  else if s.inComment then .ok (.more s)
  else if isSpace b then do
    let s ← s.endToken
    .ok (.more s)
  else if s.token.isEmpty && decide (limit ≤ s.words.size) then .ok (.over s true)
  else if s.token.length = tokenLimit then .error (badToken s.line s.token.reverse "...")
  else .ok (.more { s with token := b :: s.token })

/-- The image of a text that ends here. -/
def finish (s : Scanner) (truncated : Bool) : Except RomError RomImage := do
  let s ← s.endToken
  .ok ⟨s.words.toList, truncated⟩

/-- Scans bytes up to the end of the image. -/
def run (limit : Nat) (s : Scanner) : List UInt8 → Except RomError RomImage
  | [] => s.finish false
  | b :: rest =>
    match s.feed limit b with
    | .error fault => .error fault
    | .ok (.more s) => run limit s rest
    | .ok (.over s truncated) => s.finish truncated

end Scanner

namespace RomImage

/-- Scans an image for at most `limit` words. -/
def scan (limit : Nat) (bytes : List UInt8) : Except RomError RomImage :=
  Scanner.run limit {} bytes

/-- Scans a whole image. -/
def read (bytes : List UInt8) : Except RomError RomImage :=
  scan Word.countLimit bytes

end RomImage

end Netlist
