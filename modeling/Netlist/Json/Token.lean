/-
Module: Netlist.Json.Token
Layer: Json
Purpose: The tokens of a JSON text. A lexer is a state machine fed one character at a time; white space
  exists only here. Names and numbers are longest runs of bare characters, judged when the run ends:
  two of them can never touch in a well-formed text, so judging whole runs accepts the same texts as
  judging them character by character.
Imports: Netlist.Json.Basic, Netlist.Text.Hex
Main exports: Json.Token, Json.Lexer, Json.Lexer.feed, Json.tokens?
-/
import Netlist.Json.Basic
import Netlist.Text.Hex

namespace Netlist.Json

/-- A token of a JSON text. -/
inductive Token where
  | openBrace
  | closeBrace
  | openBracket
  | closeBracket
  | colon
  | comma
  | null
  | bool (value : Bool)
  | num (value : Number)
  | str (text : Option String)
deriving Repr, Inhabited, DecidableEq

/-!
### Strings

A string is gathered as pieces: characters written as themselves or by a short escape, and 16-bit units
written by a `\u` escape. Two units that form a surrogate pair name one character; a surrogate without
its partner names none.
-/

/-- A piece of a string. -/
inductive Piece where
  | char (c : Char)
  | unit (value : Nat)
deriving Repr, Inhabited, DecidableEq

/-- Whether a unit is the first half of a surrogate pair. -/
def isHighSurrogate (unit : Nat) : Bool :=
  0xD800 ≤ unit && unit ≤ 0xDBFF

/-- Whether a unit is the second half of a surrogate pair. -/
def isLowSurrogate (unit : Nat) : Bool :=
  0xDC00 ≤ unit && unit ≤ 0xDFFF

/-- The character of a surrogate pair. -/
def pairedChar (high low : Nat) : Char :=
  Char.ofNat (0x10000 + 0x400 * (high - 0xD800) + (low - 0xDC00))

/-- The characters named by the pieces of a string, unless a surrogate stands alone. -/
def assemble : List Piece → Option (List Char)
  | [] => some []
  | .char c :: rest => (assemble rest).map (c :: ·)
  | .unit high :: .unit low :: rest =>
    if isHighSurrogate high && isLowSurrogate low then
      (assemble rest).map (pairedChar high low :: ·)
    else if isHighSurrogate high || isLowSurrogate high then none
    else (assemble (.unit low :: rest)).map (Char.ofNat high :: ·)
  | .unit unit :: rest =>
    if isHighSurrogate unit || isLowSurrogate unit then none
    else (assemble rest).map (Char.ofNat unit :: ·)

/-- The token of a string, from its pieces in order. -/
def stringToken (pieces : List Piece) : Token :=
  .str ((assemble pieces).map String.ofList)

/-- The character that a short escape stands for. -/
def shortEscape : Char → Option Char
  | '"' => some '"'
  | '\\' => some '\\'
  | '/' => some '/'
  | 'b' => some '\x08'
  | 'f' => some '\x0c'
  | 'n' => some '\n'
  | 'r' => some '\r'
  | 't' => some '\t'
  | _ => none

/-!
### Bare runs
-/

/-- Whether a character may stand in a bare run. -/
def isBare (c : Char) : Bool :=
  c.isAlphanum || c == '-' || c == '+' || c == '.'

/-- The token of a bare run: one of the three names, or a number. -/
def bareToken (run : List Char) : Option Token :=
  if run = ['n', 'u', 'l', 'l'] then some .null
  else if run = ['t', 'r', 'u', 'e'] then some (.bool true)
  else if run = ['f', 'a', 'l', 's', 'e'] then some (.bool false)
  else (Number.read run).map .num

/-- White space between tokens. -/
def isSpace (c : Char) : Bool :=
  c == ' ' || c == '\t' || c == '\n' || c == '\r'

/-- The token of a character that is a token by itself. -/
def punctuation : Char → Option Token
  | '\x7b' => some .openBrace
  | '\x7d' => some .closeBrace
  | '[' => some .openBracket
  | ']' => some .closeBracket
  | ':' => some .colon
  | ',' => some .comma
  | _ => none

/-!
### The machine
-/

/-- What the characters read so far have left open. -/
inductive Mode where
  /-- Nothing. -/
  | between
  /-- A bare run, last character first. -/
  | bare (run : List Char)
  /-- A string, last piece first. -/
  | quoted (pieces : List Piece)
  /-- A string, just after a backslash. -/
  | escape (pieces : List Piece)
  /-- A string, inside a `\u` escape: the value of the digits read and the number of digits owed. -/
  | unit (pieces : List Piece) (value owed : Nat)
deriving Repr, Inhabited, DecidableEq

/-- A lexer: what is open, and the finished tokens, last token first. -/
structure Lexer where
  /-- What is open. -/
  mode : Mode
  /-- The finished tokens, last token first. -/
  done : List Token
deriving Repr, Inhabited, DecidableEq

namespace Lexer

/-- The lexer before the first character. -/
def start : Lexer :=
  ⟨.between, []⟩

/-- Reads a character outside of strings and bare runs. -/
def feedBetween (done : List Token) (c : Char) : Option Lexer :=
  if isSpace c then some ⟨.between, done⟩
  else if c = '"' then some ⟨.quoted [], done⟩
  else if isBare c then some ⟨.bare [c], done⟩
  else (punctuation c).map (fun token => ⟨.between, token :: done⟩)

/-- Reads one character. A text that no token can continue is refused. -/
def feed (lexer : Lexer) (c : Char) : Option Lexer :=
  match lexer.mode with
  | .between => feedBetween lexer.done c
  | .bare run =>
    if isBare c then some ⟨.bare (c :: run), lexer.done⟩
    else
      match bareToken run.reverse with
      | some token => feedBetween (token :: lexer.done) c
      | none => none
  | .quoted pieces =>
    if c = '"' then some ⟨.between, stringToken pieces.reverse :: lexer.done⟩
    else if c = '\\' then some ⟨.escape pieces, lexer.done⟩
    else if c.toNat < 0x20 then none
    else some ⟨.quoted (.char c :: pieces), lexer.done⟩
  | .escape pieces =>
    if c = 'u' then some ⟨.unit pieces 0 4, lexer.done⟩
    else (shortEscape c).map (fun named => ⟨.quoted (.char named :: pieces), lexer.done⟩)
  | .unit pieces value owed =>
    match Text.Hex.digitValue c with
    | none => none
    | some digit =>
      let value := 16 * value + digit
      if owed ≤ 1 then some ⟨.quoted (.unit value :: pieces), lexer.done⟩
      else some ⟨.unit pieces value (owed - 1), lexer.done⟩

/-- The tokens of a text that ends here, in order. -/
def finish (lexer : Lexer) : Option (List Token) :=
  match lexer.mode with
  | .between => some lexer.done.reverse
  | .bare run => (bareToken run.reverse).map (fun token => (token :: lexer.done).reverse)
  | _ => none

end Lexer

/-- The tokens of a text, if it consists of tokens and white space. -/
def tokens? (text : List Char) : Option (List Token) :=
  (text.foldlM Lexer.feed Lexer.start).bind Lexer.finish

end Netlist.Json
