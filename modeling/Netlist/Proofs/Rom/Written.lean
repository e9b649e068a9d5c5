/-
Module: Netlist.Proofs.Rom.Written
Layer: Proofs
Purpose: Reading undoes writing. `RomImage.Writes` says how words can be written as the text of an image: any
  spelling of each word, with white space and comments around the words and at least some between two of
  them. Every such text reads as the words. Likewise the text printed for an output pin reads as its value
  at a prompt.
Imports: Netlist.Proofs.Rom.Bounded, Netlist.Proofs.Rom.Tokens, Netlist.Proofs.Text.Hex,
  Netlist.Proofs.Text.Utf8, Netlist.Simulation.Vector
Main exports: RomImage.Filler, RomImage.Writes, Scanner.tokensFrom_filler, Scanner.forall₂_word_of_writes,
  RomImage.reading_undoes_writing
-/
import Netlist.Proofs.Rom.Bounded
import Netlist.Proofs.Rom.Tokens
import Netlist.Proofs.Text.Hex
import Netlist.Proofs.Text.Utf8
import Netlist.Simulation.Vector

namespace Netlist

/-!
### Texts of images
-/

namespace RomImage

/-- What separates words: white space, and comments that end with their line. -/
inductive Filler : List Char → Prop where
  | nil : Filler []
  | blank {c : Char} {rest : List Char} (kind : c = ' ' ∨ c = '\t' ∨ c = '\x0c' ∨ c = '\r')
      (later : Filler rest) : Filler (c :: rest)
  | newline {rest : List Char} (later : Filler rest) : Filler ('\n' :: rest)
  | comment {body rest : List Char} (line : '\n' ∉ body) (nul : '\x00' ∉ body) (later : Filler rest) :
      Filler ('#' :: (body ++ '\n' :: rest))

/-- A text has some words written in it, each in one of its spellings of at most 32 bytes. -/
inductive Writes : List Word → List Char → Prop where
  | blank {fill : List Char} (filler : Filler fill) : Writes [] fill
  | last {before token after : List Char} {word : Word} (filler : Filler before)
      (spells : Text.Hex.Spells token word)
      (short : (Text.Utf8.encode (String.ofList token)).length ≤ 32) (ends : Filler after) :
      Writes [word] (before ++ (token ++ after))
  | more {before token gap rest : List Char} {word : Word} {words : List Word} (filler : Filler before)
      (spells : Text.Hex.Spells token word)
      (short : (Text.Utf8.encode (String.ofList token)).length ≤ 32) (separates : Filler gap)
      (apart : gap ≠ []) (later : Writes words rest) :
      Writes (word :: words) (before ++ (token ++ (gap ++ rest)))

end RomImage

namespace Scanner

/-!
### Separators and tokens byte by byte
-/

/-- Separators end the token under way and start none. Only the number of the line may have changed. -/
theorem tokensFrom_filler {fill : List Char} (h : RomImage.Filler fill) (line : Nat)
    (token rest : List UInt8) (hends : fill ≠ [] ∨ token = [] ∨ rest = []) :
    ∃ line', tokensFrom line false token (fill.flatMap String.utf8EncodeChar ++ rest) =
      closeToken line token (tokensFrom line' false [] rest) := by
  induction h generalizing line token with
  | nil =>
      -- with nothing in between, there is no token to end, or the end of the text ends it
      refine ⟨line, ?_⟩
      rcases hends with hfill | htoken | hrest
      · exact absurd rfl hfill
      · rw [htoken]
        rfl
      · rw [hrest]
        rfl
  | @blank c later kind _ ih =>
      rcases ih line [] (.inr (.inl rfl)) with ⟨line', hlater⟩
      refine ⟨line', ?_⟩
      rcases kind with rfl | rfl | rfl | rfl <;> exact congrArg (closeToken line token) hlater
  | @newline later _ ih =>
      rcases ih (line + 1) [] (.inr (.inl rfl)) with ⟨line', hlater⟩
      exact ⟨line', congrArg (closeToken line token) hlater⟩
  | @comment body later hline hnul _ ih =>
      rcases ih (line + 1) [] (.inr (.inl rfl)) with ⟨line', hlater⟩
      -- no other character has the byte of a NUL or of a newline, so the body ends nothing
      have hbody : ∀ b ∈ body.flatMap String.utf8EncodeChar, b ≠ 0 ∧ b ≠ 0x0A := by
        intro b hb
        rcases List.mem_flatMap.1 hb with ⟨c, hc, hb⟩
        constructor
        · intro heq
          have hchar : c = '\x00' :=
            Text.Utf8.eq_of_mem_utf8EncodeChar hb (by rw [heq]; rfl) (by rw [heq]; decide)
          exact hnul (hchar ▸ hc)
        · intro heq
          exact hline (Text.Utf8.eq_newline_of_mem_utf8EncodeChar (heq ▸ hb) ▸ hc)
      have hbytes : ('#' :: (body ++ '\n' :: later)).flatMap String.utf8EncodeChar ++ rest =
          0x23 :: (body.flatMap String.utf8EncodeChar ++
            0x0A :: (later.flatMap String.utf8EncodeChar ++ rest)) := by
        rw [List.flatMap_cons, List.flatMap_append, List.flatMap_cons, List.append_assoc, List.append_assoc,
          List.append_assoc]
        rfl
      refine ⟨line', ?_⟩
      rw [hbytes]
      exact congrArg (closeToken line token) ((tokensFrom_comment hbody line _).trans hlater)

/-- The bytes of a token are gathered. -/
theorem tokensFrom_solid {bytes : List UInt8}
    (h : ∀ b ∈ bytes, b ≠ 0 ∧ b ≠ 0x0A ∧ b ≠ 0x23 ∧ isSpace b = false) (line : Nat)
    (token rest : List UInt8) :
    tokensFrom line false token (bytes ++ rest) = tokensFrom line false (bytes.reverse ++ token) rest := by
  induction bytes generalizing token with
  | nil => rfl
  | cons b later ih =>
      rcases h b List.mem_cons_self with ⟨hnul, hnewline, hhash, hspace⟩
      rw [List.cons_append, tokensFrom, if_neg hnul, if_neg hnewline, if_neg hhash, if_neg (by decide),
        if_neg (by simp [hspace]), ih (fun c hc => h c (List.mem_cons_of_mem b hc)), List.reverse_cons,
        List.append_assoc]
      rfl

/-- No spelling of a word has a separator in it. -/
theorem solid_of_spells {token : List Char} {word : Word} (h : Text.Hex.Spells token word) :
    ∀ b ∈ token.flatMap String.utf8EncodeChar, b ≠ 0 ∧ b ≠ 0x0A ∧ b ≠ 0x23 ∧ isSpace b = false := by
  -- marks and digits together have few letters, and the bytes of these are no separators
  have hletters : ∀ b ∈ (Text.Hex.marks.flatten ++ "0123456789abcdef".toList ++
      "0123456789ABCDEF".toList).flatMap String.utf8EncodeChar,
      b ≠ 0 ∧ b ≠ 0x0A ∧ b ≠ 0x23 ∧ isSpace b = false := by
    decide +kernel
  rcases h with ⟨mark, hmark, digits, rfl, hdigits⟩
  intro b hb
  rcases List.mem_flatMap.1 hb with ⟨c, hc, hb⟩
  apply hletters b
  refine List.mem_flatMap.2 ⟨c, ?_, hb⟩
  rw [List.mem_append, List.mem_append]
  rcases List.mem_append.1 hc with hc | hc
  · exact .inl (.inl (List.mem_flatten.2 ⟨mark, hmark, hc⟩))
  · rcases hdigits.places with ⟨ds, hds, -⟩
    rcases forall₂_mem_left hds hc with ⟨d, -, hlower | hupper⟩
    · exact .inl (.inr (List.mem_of_getElem? hlower))
    · exact .inr (List.mem_of_getElem? hupper)

/-- A token in one of the spellings of a word reads as the word. -/
theorem word_of_spells {token : List Char} {word : Word} (h : Text.Hex.Spells token word)
    (hshort : (Text.Utf8.encode (String.ofList token)).length ≤ 32) (line : Nat) :
    ImageToken.word ⟨line, token.flatMap String.utf8EncodeChar⟩ = .ok word := by
  rw [Text.Utf8.encode_eq_flatMap, String.toList_ofList] at hshort
  apply ImageToken.word_eq_ok_iff.2
  exact ⟨hshort, token, Text.Utf8.decode?_flatMap token, Text.Hex.parse_of_spells h⟩

/-- A spelling between separators is the next token. -/
theorem tokensFrom_written {before token gap rest : List Char} {word : Word}
    (hbefore : RomImage.Filler before) (hspells : Text.Hex.Spells token word) (hgap : RomImage.Filler gap)
    (hends : gap ≠ [] ∨ rest = []) (line : Nat) :
    ∃ line' line'', tokensFrom line false []
        ((before ++ (token ++ (gap ++ rest))).flatMap String.utf8EncodeChar) =
      ⟨line', token.flatMap String.utf8EncodeChar⟩ ::
        tokensFrom line'' false [] (rest.flatMap String.utf8EncodeChar) := by
  -- a token without bytes would read as no word
  have hnonempty : token.flatMap String.utf8EncodeChar ≠ [] := by
    intro hnil
    have hdecode := Text.Utf8.decode?_flatMap token
    rw [hnil] at hdecode
    cases hdecode
    cases Text.Hex.parse_of_spells hspells
  simp only [List.flatMap_append]
  rcases tokensFrom_filler hbefore line [] (token.flatMap String.utf8EncodeChar ++
    (gap.flatMap String.utf8EncodeChar ++ rest.flatMap String.utf8EncodeChar)) (.inr (.inl rfl))
    with ⟨line', hfill⟩
  have hend : gap ≠ [] ∨ (token.flatMap String.utf8EncodeChar).reverse = [] ∨
      rest.flatMap String.utf8EncodeChar = [] := by
    rcases hends with hgap | hrest
    · exact .inl hgap
    · exact .inr (.inr (by rw [hrest]; rfl))
  rcases tokensFrom_filler hgap line' (token.flatMap String.utf8EncodeChar).reverse _ hend
    with ⟨line'', hclosed⟩
  refine ⟨line', line'', ?_⟩
  calc
    _ = tokensFrom line' false [] (token.flatMap String.utf8EncodeChar ++
          (gap.flatMap String.utf8EncodeChar ++ rest.flatMap String.utf8EncodeChar)) := hfill
    _ = tokensFrom line' false (token.flatMap String.utf8EncodeChar).reverse
          (gap.flatMap String.utf8EncodeChar ++ rest.flatMap String.utf8EncodeChar) := by
        rw [tokensFrom_solid (solid_of_spells hspells), List.append_nil]
    _ = closeToken line' (token.flatMap String.utf8EncodeChar).reverse
          (tokensFrom line'' false [] (rest.flatMap String.utf8EncodeChar)) := hclosed
    _ = _ := by simp [closeToken, hnonempty]

/-- The tokens of a text in which words are written are read as these words. -/
theorem forall₂_word_of_writes {words : List Word} {text : List Char} (h : RomImage.Writes words text)
    (line : Nat) :
    List.Forall₂ (fun token word => token.word = .ok word)
      (tokensFrom line false [] (text.flatMap String.utf8EncodeChar)) words := by
  induction h generalizing line with
  | @blank fill filler =>
      rcases tokensFrom_filler filler line [] [] (.inr (.inl rfl)) with ⟨line', hfill⟩
      rw [List.append_nil] at hfill
      rw [hfill]
      exact .nil
  | @last before token after word filler spells short ends =>
      rcases tokensFrom_written filler spells ends (.inr rfl) line with ⟨line', line'', htokens⟩
      rw [List.append_nil] at htokens
      rw [htokens]
      exact .cons (word_of_spells spells short line') .nil
  | more filler spells short separates apart later ih =>
      rcases tokensFrom_written filler spells separates (.inl apart) line with ⟨line', line'', htokens⟩
      rw [htokens]
      exact .cons (word_of_spells spells short line') (ih line'')

end Scanner

/-!
### Reading back
-/

theorem OutputVector.text_append_cons (before after : List (String × Word)) (pin : String) (v : Word) :
    (⟨before ++ (pin, v) :: after⟩ : OutputVector).text =
      (⟨before⟩ : OutputVector).text ++ (pin ++ "=" ++ v.hex ++ ", ") ++ (⟨after⟩ : OutputVector).text := by
  simp [text, String.join_append, String.join_cons, String.append_assoc]

namespace RomImage

/-- Reading undoes writing. A text in which words are written reads as these words, as far as there is room
    for them; a whole image has room for as many words as can be counted. And in the text of an output
    vector each value stands in a form that reads as the value, by itself and behind a mark. -/
theorem reading_undoes_writing :
    (∀ (words : List Word) (text : String), Writes words text.toList →
      (∀ limit, scan limit (Text.Utf8.encode text) =
        .ok ⟨words.take limit, decide (limit < words.length)⟩) ∧
      (words.length ≤ Word.countLimit → read (Text.Utf8.encode text) = .ok ⟨words, false⟩)) ∧
    (∀ (before after : List (String × Word)) (pin : String) (v : Word),
      (⟨before ++ (pin, v) :: after⟩ : OutputVector).text =
        (⟨before⟩ : OutputVector).text ++ (pin ++ "=" ++ v.hex ++ ", ") ++ (⟨after⟩ : OutputVector).text ∧
      Text.Hex.parse v.hex.toList = some v ∧ Text.Hex.parse ("0x" ++ v.hex).toList = some v) := by
  constructor
  · intro words text hwrites
    have hwords := Scanner.forall₂_word_of_writes hwrites 1
    rw [← Text.Utf8.encode_eq_flatMap, Scanner.tokensFrom_start] at hwords
    have hscan : ∀ limit, scan limit (Text.Utf8.encode text) =
        .ok ⟨words.take limit, decide (limit < words.length)⟩ := by
      intro limit
      apply scan_eq_ok_iff.2
      refine ⟨List.forall₂_take limit hwords, ?_⟩
      rw [hwords.length_eq]
    refine ⟨hscan, ?_⟩
    intro hlength
    unfold read
    rw [hscan, List.take_of_length_le hlength, decide_eq_false (Nat.not_lt.2 hlength)]
  · intro before after pin v
    refine ⟨OutputVector.text_append_cons before after pin v, ?_, ?_⟩
    · exact Text.Hex.parse_of_spells (Text.Hex.spells_hex v [] (by simp [Text.Hex.marks]))
    · rw [String.toList_append]
      exact Text.Hex.parse_of_spells (Text.Hex.spells_hex v ['0', 'x'] (by simp [Text.Hex.marks]))

/-- A comment, a marked word that a comment ends, and a word with a leading zero. -/
theorem commented_pair_reads_back :
    Writes [0x1F, 0xA] "#é\n 0X1f#\n0A".toList ∧
      read (Text.Utf8.encode "#é\n 0X1f#\n0A") = .ok ⟨[0x1F, 0xA], false⟩ := by
  have hfirst : Text.Hex.Spells ['0', 'X', '1', 'f'] 0x1F :=
    ⟨['0', 'X'], by decide, ['1', 'f'], rfl, by decide, [1, 15],
      .cons (by decide) (.cons (by decide) .nil), by decide⟩
  have hsecond : Text.Hex.Spells ['0', 'A'] 0xA :=
    ⟨[], by decide, ['0', 'A'], rfl, by decide, [0, 10],
      .cons (by decide) (.cons (by decide) .nil), by decide⟩
  have hbefore : Filler ('#' :: (['é'] ++ ['\n', ' '])) :=
    .comment (by decide) (by decide) (.blank (.inl rfl) .nil)
  have hgap : Filler ('#' :: ([] ++ ['\n'])) := .comment (by decide) (by decide) .nil
  have hwrites : Writes [0x1F, 0xA] "#é\n 0X1f#\n0A".toList :=
    .more hbefore hfirst (by decide +kernel) hgap (by decide)
      (.last .nil hsecond (by decide +kernel) .nil)
  rcases reading_undoes_writing with ⟨hread, -⟩
  exact ⟨hwrites, (hread _ _ hwrites).2 (by decide)⟩

end RomImage

end Netlist
