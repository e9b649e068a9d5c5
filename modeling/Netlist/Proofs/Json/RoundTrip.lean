/-
Module: Netlist.Proofs.Json.RoundTrip
Layer: Proofs
Purpose: A written value reads back. Fed with the tokens of a value, the parser puts that value where the
  value under way belongs, whatever containers are open around it; together with what the lexer finds in
  a written value, reading undoes writing.
Imports: Netlist.Json.Parser, Netlist.Proofs.Json.Lexing
Main exports: Json.feed_tokens, Json.ofTokens?_tokens, Json.parse?_render_of_legible
-/
import Netlist.Json.Parser
import Netlist.Proofs.Json.Lexing

namespace Netlist.Json

/-- No value starts with the end of an array, so the first item of an array is read like any value. -/
theorem feed_firstItem (v : Json) (rest : List Token) (stack : List Frame) :
    (tokens v ++ rest).foldlM Parser.feed (.firstItem stack) =
      (tokens v ++ rest).foldlM Parser.feed (.value (.arr [] :: stack)) := by
  cases v with
  | null => rfl
  | bool b => rfl
  | num n => rfl
  | str text => rfl
  | arr items => cases items <;> rfl
  | obj members =>
      cases members with
      | nil => rfl
      | cons member members => rfl

mutual

/-- The tokens of a value put it into the innermost open container. -/
theorem feed_tokens : ∀ (v : Json) (rest : List Token) (stack : List Frame),
    (tokens v ++ rest).foldlM Parser.feed (.value stack) =
      rest.foldlM Parser.feed (Parser.plug v stack)
  | .null, _, _ => rfl
  | .bool _, _, _ => rfl
  | .num _, _, _ => rfl
  | .str _, _, _ => rfl
  | .arr [], _, _ => rfl
  | .arr (v :: items), rest, stack => by
      have hopen : Parser.feed (.value stack) .openBracket = some (.firstItem stack) := rfl
      rw [tokens, List.cons_append, List.foldlM_cons, hopen, Option.bind_eq_bind, Option.bind_some,
        List.append_assoc, List.append_assoc, feed_firstItem, feed_tokens]
      exact feed_itemTokens items rest [v] stack
  | .obj [], _, _ => rfl
  | .obj ((key, v) :: members), rest, stack => by
      have hopen : ∀ more, (Token.openBrace :: .str key :: .colon :: more).foldlM Parser.feed
          (.value stack) = more.foldlM Parser.feed (.value (.obj [] key :: stack)) := fun _ => rfl
      rw [tokens, List.cons_append, List.cons_append, List.cons_append, hopen, List.append_assoc,
        List.append_assoc, feed_tokens]
      exact feed_memberTokens members rest [(key, v)] stack

/-- The tokens of further items and the end of the array put the whole array in its place. -/
theorem feed_itemTokens : ∀ (items : List Json) (rest : List Token) (before : List Json)
    (stack : List Frame),
    (itemTokens items ++ ([Token.closeBracket] ++ rest)).foldlM Parser.feed (.afterItem before stack) =
      rest.foldlM Parser.feed (Parser.plug (.arr (before.reverse ++ items)) stack)
  | [], rest, before, stack => by
      rw [List.append_nil]
      rfl
  | v :: items, rest, before, stack => by
      have hcomma : Parser.feed (.afterItem before stack) .comma =
        some (.value (.arr before :: stack)) := rfl
      rw [itemTokens, List.cons_append, List.foldlM_cons, hcomma, Option.bind_eq_bind,
        Option.bind_some, List.append_assoc, feed_tokens]
      refine (feed_itemTokens items rest (v :: before) stack).trans ?_
      rw [List.reverse_cons, List.append_assoc]
      rfl

/-- The tokens of further members and the end of the object put the whole object in its place. -/
theorem feed_memberTokens : ∀ (members : List (Option String × Json)) (rest : List Token)
    (before : List (Option String × Json)) (stack : List Frame),
    (memberTokens members ++ ([Token.closeBrace] ++ rest)).foldlM Parser.feed (.afterMember before stack) =
      rest.foldlM Parser.feed (Parser.plug (.obj (before.reverse ++ members)) stack)
  | [], rest, before, stack => by
      rw [List.append_nil]
      rfl
  | (key, v) :: members, rest, before, stack => by
      have hcomma : ∀ more, (Token.comma :: .str key :: .colon :: more).foldlM Parser.feed
          (.afterMember before stack) = more.foldlM Parser.feed (.value (.obj before key :: stack)) :=
        fun _ => rfl
      rw [memberTokens, List.cons_append, List.cons_append, List.cons_append, hcomma,
        List.append_assoc, feed_tokens]
      refine (feed_memberTokens members rest ((key, v) :: before) stack).trans ?_
      rw [List.reverse_cons, List.append_assoc]
      rfl

end

/-- The tokens of a value are read as the value. -/
theorem ofTokens?_tokens (v : Json) : ofTokens? v.tokens = some v := by
  have hfeed := feed_tokens v [] []
  rw [List.append_nil] at hfeed
  rw [ofTokens?, hfeed]
  rfl

/-- A written value reads back, if its numbers do. -/
theorem parse?_render_of_legible {v : Json} (h : v.Legible) : parse? v.render = some v := by
  rw [parse?, tokens?_render h, Option.bind_some, ofTokens?_tokens]

end Netlist.Json
