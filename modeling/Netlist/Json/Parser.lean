/-
Module: Netlist.Json.Parser
Layer: Json
Purpose: The value of a token sequence. The parser is a pushdown machine fed one token at a time: its
  state says what may come next and holds the containers that are still open, innermost first. Nesting
  costs nothing but a longer stack, so texts of any depth are read.
Imports: Netlist.Json.Token
Main exports: Json.Frame, Json.Parser, Json.Parser.feed, Json.ofTokens?, Json.parse?
-/
import Netlist.Json.Token

namespace Netlist.Json

/-- A container that is still open, at the place where the value under way belongs. -/
inductive Frame where
  /-- An array with its items so far, last item first. -/
  | arr (items : List Json)
  /-- An object with its members so far, last member first, and the key of the value under way. -/
  | obj (members : List (Option String × Json)) (key : Option String)
deriving Repr, Inhabited

/-- What the tokens read so far admit next. -/
inductive Parser where
  /-- A value. -/
  | value (stack : List Frame)
  /-- The first item of an array, or its end. -/
  | firstItem (stack : List Frame)
  /-- A comma or the end of an array with these items, last item first. -/
  | afterItem (items : List Json) (stack : List Frame)
  /-- The first key of an object, or its end. -/
  | firstKey (stack : List Frame)
  /-- A further key of an object with these members, last member first. -/
  | furtherKey (members : List (Option String × Json)) (stack : List Frame)
  /-- The colon after a key. -/
  | colon (members : List (Option String × Json)) (key : Option String) (stack : List Frame)
  /-- A comma or the end of an object with these members, last member first. -/
  | afterMember (members : List (Option String × Json)) (stack : List Frame)
  /-- Nothing: the value is complete. -/
  | complete (value : Json)
deriving Repr, Inhabited

namespace Parser

/-- Puts a finished value into the innermost open container. -/
def plug (v : Json) : List Frame → Parser
  | [] => .complete v
  | .arr items :: stack => .afterItem (v :: items) stack
  | .obj members key :: stack => .afterMember ((key, v) :: members) stack

/-- Reads the first token of a value. -/
def startValue (stack : List Frame) : Token → Option Parser
  | .null => some (plug .null stack)
  | .bool b => some (plug (.bool b) stack)
  | .num n => some (plug (.num n) stack)
  | .str text => some (plug (.str text) stack)
  | .openBracket => some (.firstItem stack)
  | .openBrace => some (.firstKey stack)
  | _ => none

/-- Reads one token. -/
def feed : Parser → Token → Option Parser
  | .value stack, token => startValue stack token
  | .firstItem stack, .closeBracket => some (plug (.arr []) stack)
  | .firstItem stack, token => startValue (.arr [] :: stack) token
  | .afterItem items stack, .comma => some (.value (.arr items :: stack))
  | .afterItem items stack, .closeBracket => some (plug (.arr items.reverse) stack)
  | .firstKey stack, .closeBrace => some (plug (.obj []) stack)
  | .firstKey stack, .str key => some (.colon [] key stack)
  | .furtherKey members stack, .str key => some (.colon members key stack)
  | .colon members key stack, .colon => some (.value (.obj members key :: stack))
  | .afterMember members stack, .comma => some (.furtherKey members stack)
  | .afterMember members stack, .closeBrace => some (plug (.obj members.reverse) stack)
  | _, _ => none

/-- The value of a token sequence that ends here. -/
def finish : Parser → Option Json
  | .complete v => some v
  | _ => none

end Parser

/-- The value of a token sequence. -/
def ofTokens? (tokens : List Token) : Option Json :=
  (tokens.foldlM Parser.feed (.value [])).bind Parser.finish

/-- The value of a text. -/
def parse? (text : List Char) : Option Json :=
  (tokens? text).bind ofTokens?

end Netlist.Json
