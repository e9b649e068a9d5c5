/-
Module: Netlist.Proofs.Json.Lexing
Layer: Proofs
Purpose: The tokens of a written value. `Json.tokens` lists the tokens of a value without any text; the
  lexer finds exactly these in the written form, whatever the indentation. A text is taken piece by piece:
  `Reads` says which tokens a piece adds, and two pieces can be joined when the second one does not start
  with a character that would prolong a bare run.
Imports: Netlist.Json.Printer, Netlist.Proofs.Json.Number
Main exports: Json.tokens, Json.Legible, Json.Reads, Json.Reads.append, Json.reads_renderString,
  Json.reads_renderAt, Json.tokens?_render
-/
import Netlist.Json.Printer
import Netlist.Proofs.Json.Number

namespace Netlist.Json

/-!
### The tokens of a value
-/

mutual

/-- The tokens of a value. -/
def tokens : Json → List Token
  | .null => [.null]
  | .bool b => [.bool b]
  | .num n => [.num n]
  | .str text => [.str text]
  | .arr [] => [.openBracket, .closeBracket]
  | .arr (v :: rest) => .openBracket :: (tokens v ++ itemTokens rest ++ [.closeBracket])
  | .obj [] => [.openBrace, .closeBrace]
  | .obj ((key, v) :: rest) =>
    .openBrace :: .str key :: .colon :: (tokens v ++ memberTokens rest ++ [.closeBrace])

/-- The tokens of the further items of an array. -/
def itemTokens : List Json → List Token
  | [] => []
  | v :: rest => .comma :: (tokens v ++ itemTokens rest)

/-- The tokens of the further members of an object. -/
def memberTokens : List (Option String × Json) → List Token
  | [] => []
  | (key, v) :: rest => .comma :: .str key :: .colon :: (tokens v ++ memberTokens rest)

end

mutual

/-- Every number of a value reads back from its spelling. -/
def Legible : Json → Prop
  | .num n => n.Legible
  | .arr items => LegibleItems items
  | .obj members => LegibleMembers members
  | _ => True

/-- Every item is legible. -/
def LegibleItems : List Json → Prop
  | [] => True
  | v :: rest => Legible v ∧ LegibleItems rest

/-- Every member has a legible value. -/
def LegibleMembers : List (Option String × Json) → Prop
  | [] => True
  | (_, v) :: rest => Legible v ∧ LegibleMembers rest

end

/-!
### Pieces of a text
-/

/-- Between two tokens, the lexer reads a text as the given tokens. The last one may be a bare run that
    is still open when the text ends. -/
def Reads (text : List Char) (tokens : List Token) : Prop :=
  ∀ done, ∃ lexer, text.foldlM Lexer.feed ⟨.between, done⟩ = some lexer ∧
    lexer.finish = some (done.reverse ++ tokens)

/-- A text does not start with a character that prolongs a bare run. -/
def Stops (text : List Char) : Prop :=
  ∀ c ∈ text.head?, isBare c = false

/-- A character that prolongs no run ends the run that is open, and is then read between tokens. -/
theorem feed_of_finish {lexer : Lexer} {read : List Token} (h : lexer.finish = some read) {c : Char}
    (hc : isBare c = false) : lexer.feed c = Lexer.feed ⟨.between, read.reverse⟩ c := by
  rcases lexer with ⟨mode, done⟩
  cases mode with
  | between =>
      cases h
      simp [Lexer.feed]
  | bare run =>
      obtain ⟨token, htoken, hread⟩ := Option.map_eq_some_iff.1 h
      cases hread
      simp [Lexer.feed, hc, htoken]
  | quoted | escape | unit => cases h

namespace Reads

variable {text rest : List Char} {read later : List Token}

theorem nil : Reads [] [] :=
  fun done => ⟨⟨.between, done⟩, rfl, by simp [Lexer.finish]⟩

/-- Two texts can be joined when the second one ends an open run. -/
theorem append (h : Reads text read) (hrest : Reads rest later) (hstops : Stops rest) :
    Reads (text ++ rest) (read ++ later) := by
  intro done
  obtain ⟨lexer, hfeed, hfinish⟩ := h done
  obtain ⟨final, hfinal, htokens⟩ := hrest (done.reverse ++ read).reverse
  rw [List.reverse_reverse] at htokens
  cases rest with
  | nil =>
      cases hfinal
      simp only [Lexer.finish, List.reverse_reverse] at htokens
      exact ⟨lexer, by simpa using hfeed, by rw [hfinish, htokens, List.append_assoc]⟩
  | cons c rest =>
      refine ⟨final, ?_, by rw [htokens, List.append_assoc]⟩
      rw [List.foldlM_append, hfeed]
      rw [List.foldlM_cons] at hfinal
      rw [Option.bind_eq_bind, Option.bind_some, List.foldlM_cons,
        feed_of_finish hfinish (hstops c rfl)]
      exact hfinal

/-- White space between tokens is no token. -/
theorem space (h : Reads text read) {c : Char} (hc : isSpace c = true) : Reads (c :: text) read := by
  intro done
  obtain ⟨lexer, hfeed, hfinish⟩ := h done
  refine ⟨lexer, ?_, hfinish⟩
  rw [List.foldlM_cons, Lexer.feed]
  simpa [Lexer.feedBetween, hc] using hfeed

/-- A punctuation mark is a token. -/
theorem mark (h : Reads text read) {c : Char} {token : Token} (hspace : isSpace c = false)
    (hquote : c ≠ '"') (hbare : isBare c = false) (hc : punctuation c = some token) :
    Reads (c :: text) (token :: read) := by
  intro done
  obtain ⟨lexer, hfeed, hfinish⟩ := h (token :: done)
  refine ⟨lexer, ?_, by simpa using hfinish⟩
  rw [List.foldlM_cons, Lexer.feed]
  simpa [Lexer.feedBetween, hspace, hquote, hbare, hc] using hfeed

theorem newline (h : Reads text read) (depth : Nat) : Reads (newline depth ++ text) read := by
  have hspaces : ∀ k, Reads (List.replicate k ' ' ++ text) read := by
    intro k
    induction k with
    | zero => exact h
    | succ k ih =>
        rw [List.replicate_succ, List.cons_append]
        exact ih.space (by decide)
  exact (hspaces _).space (by decide)

end Reads

theorem stops_newline (depth : Nat) (text : List Char) : Stops (newline depth ++ text) := by
  intro c hc
  cases hc
  decide

/-!
### Bare runs
-/

/-- Characters of a bare run are gathered. -/
theorem feed_bare {text run : List Char} {done : List Token} (h : ∀ c ∈ text, isBare c = true) :
    text.foldlM Lexer.feed ⟨.bare run, done⟩ = some ⟨.bare (text.reverse ++ run), done⟩ := by
  induction text generalizing run with
  | nil => rfl
  | cons c rest ih =>
      have hc := h c List.mem_cons_self
      rw [List.foldlM_cons, Lexer.feed]
      simp only [hc, if_true]
      refine (ih (fun d hd => h d (List.mem_cons_of_mem c hd))).trans ?_
      simp

theorem isSpace_of_isBare {c : Char} (h : isBare c = true) : isSpace c = false := by
  rw [← Bool.not_eq_true]
  intro hspace
  simp only [isSpace, Bool.or_eq_true, beq_iff_eq] at hspace
  rcases hspace with ((rfl | rfl) | rfl) | rfl <;> exact absurd h (by decide)

/-- A bare run that names a token is read as it. -/
theorem reads_bare {text : List Char} {token : Token} (hbare : ∀ c ∈ text, isBare c = true)
    (htoken : bareToken text = some token) : Reads text [token] := by
  intro done
  cases text with
  | nil => cases htoken
  | cons c rest =>
      have hc := hbare c List.mem_cons_self
      have hquote : c ≠ '"' := by
        rintro rfl
        exact absurd hc (by decide)
      refine ⟨⟨.bare (rest.reverse ++ [c]), done⟩, ?_, ?_⟩
      · rw [List.foldlM_cons, Lexer.feed]
        simp only [Lexer.feedBetween, isSpace_of_isBare hc, hquote, hc, if_true, if_false,
          Bool.false_eq_true]
        exact feed_bare (fun d hd => hbare d (List.mem_cons_of_mem c hd))
      · simp [Lexer.finish, htoken]

/-!
### Strings
-/

/-- A piece of a string names one character, whatever follows it. -/
def Piece.Names (piece : Piece) (c : Char) : Prop :=
  ∀ rest, assemble (piece :: rest) = (assemble rest).map (c :: ·)

theorem names_char (c : Char) : (Piece.char c).Names c :=
  fun _ => rfl

/-- A unit below the surrogates names the character of its code point. -/
theorem names_unit {c : Char} (h : c.toNat < 0xD800) : (Piece.unit c.toNat).Names c := by
  intro rest
  have hhigh : isHighSurrogate c.toNat = false := by
    rw [isHighSurrogate, Bool.and_eq_false_iff, decide_eq_false_iff_not]
    exact Or.inl (by omega)
  have hlow : isLowSurrogate c.toNat = false := by
    rw [isLowSurrogate, Bool.and_eq_false_iff, decide_eq_false_iff_not]
    exact Or.inl (by omega)
  cases rest with
  | nil => simp [assemble, hhigh, hlow, Char.ofNat_toNat]
  | cons next rest =>
      cases next with
      | char d => simp [assemble, hhigh, hlow, Char.ofNat_toNat]
      | unit value => simp [assemble, hhigh, hlow, Char.ofNat_toNat]

theorem digitValue_digitChar {k : Nat} (h : k < 16) : Text.Hex.digitValue k.digitChar = some k := by
  revert k
  decide

/-- The four digits of a unit are read as its value. -/
theorem feed_unitDigits {unit : Nat} (h : unit < 0x10000) (pieces : List Piece) (done : List Token) :
    (unitDigits unit).foldlM Lexer.feed ⟨.unit pieces 0 4, done⟩ =
      some ⟨.quoted (.unit unit :: pieces), done⟩ := by
  have hvalue : 16 * (16 * (16 * (unit / 4096 % 16) + unit / 256 % 16) + unit / 16 % 16) + unit % 16 =
      unit := by omega
  have hdigit : ∀ n, Text.Hex.digitValue (n % 16).digitChar = some (n % 16) :=
    fun n => digitValue_digitChar (Nat.mod_lt n (by decide))
  simp [unitDigits, Lexer.feed, hdigit, hvalue]

/-- The written form of a character is read as a piece that names it. -/
theorem feed_escapeChar (c : Char) (pieces : List Piece) (done : List Token) :
    ∃ piece : Piece, piece.Names c ∧
      (escapeChar c).foldlM Lexer.feed ⟨.quoted pieces, done⟩ =
        some ⟨.quoted (piece :: pieces), done⟩ := by
  by_cases hshort : c = '"' ∨ c = '\\' ∨ c = '\x08' ∨ c = '\x0c' ∨ c = '\n' ∨ c = '\r' ∨ c = '\t'
  · refine ⟨.char c, names_char c, ?_⟩
    rcases hshort with rfl | rfl | rfl | rfl | rfl | rfl | rfl <;> rfl
  · simp only [not_or] at hshort
    obtain ⟨hquote, hbackslash, hb, hf, hn, hr, ht⟩ := hshort
    by_cases hcontrol : c.toNat < 0x20
    · refine ⟨.unit c.toNat, names_unit (by omega), ?_⟩
      have hescape : escapeChar c = '\\' :: 'u' :: unitDigits c.toNat := by
        simp [escapeChar, hquote, hbackslash, hb, hf, hn, hr, ht, hcontrol]
      rw [hescape]
      exact feed_unitDigits (by omega) pieces done
    · refine ⟨.char c, names_char c, ?_⟩
      have hescape : escapeChar c = [c] := by
        simp [escapeChar, hquote, hbackslash, hb, hf, hn, hr, ht, hcontrol]
      rw [hescape]
      simp [Lexer.feed, hquote, hbackslash, hcontrol]

/-- The written form of a text is read as pieces that name its characters. -/
theorem feed_escaped (text : List Char) (pieces : List Piece) (done : List Token) :
    ∃ named, assemble named = some text ∧
      (text.flatMap escapeChar).foldlM Lexer.feed ⟨.quoted pieces, done⟩ =
        some ⟨.quoted (named.reverse ++ pieces), done⟩ := by
  induction text generalizing pieces with
  | nil => exact ⟨[], rfl, rfl⟩
  | cons c rest ih =>
      obtain ⟨piece, hnames, hfeed⟩ := feed_escapeChar c pieces done
      obtain ⟨named, hassemble, hrest⟩ := ih (piece :: pieces)
      refine ⟨piece :: named, by rw [hnames, hassemble]; rfl, ?_⟩
      rw [List.flatMap_cons, List.foldlM_append, hfeed]
      simpa using hrest

/-- A written string is read as one token. -/
theorem reads_renderString (text : Option String) {rest : List Char} {read : List Token}
    (h : Reads rest read) : Reads (renderString text ++ rest) (.str text :: read) := by
  intro done
  obtain ⟨lexer, hfeed, hfinish⟩ := h (.str text :: done)
  refine ⟨lexer, ?_, by simpa using hfinish⟩
  have hquoted : (renderString text).foldlM Lexer.feed ⟨.between, done⟩ =
      some ⟨.between, .str text :: done⟩ := by
    cases text with
    | none => rfl
    | some text =>
        obtain ⟨named, hassemble, hnamed⟩ := feed_escaped text.toList [] done
        have hopen : Lexer.feed ⟨.between, done⟩ '"' = some ⟨.quoted [], done⟩ := rfl
        rw [renderString, List.foldlM_cons, hopen, Option.bind_eq_bind, Option.bind_some,
          List.foldlM_append, hnamed]
        simp [Lexer.feed, stringToken, hassemble]
  rw [List.foldlM_append, hquoted]
  exact hfeed

/-!
### Values
-/

theorem stops_renderItems (items : List Json) (depth : Nat) {rest : List Char} (h : Stops rest) :
    Stops (renderItems depth items ++ rest) := by
  cases items with
  | nil => exact h
  | cons v items =>
      intro c hc
      cases hc
      decide

theorem stops_renderMembers (members : List (Option String × Json)) (depth : Nat) {rest : List Char}
    (h : Stops rest) : Stops (renderMembers depth members ++ rest) := by
  cases members with
  | nil => exact h
  | cons member members =>
      intro c hc
      cases hc
      decide

mutual

/-- The written form of a value is read as the tokens of the value. -/
theorem reads_renderAt : ∀ (v : Json) (depth : Nat), v.Legible → Reads (renderAt depth v) (tokens v)
  | .null, _, _ => (reads_bare (List.all_eq_true.1 rfl) rfl : Reads ['n', 'u', 'l', 'l'] [.null])
  | .bool true, _, _ => (reads_bare (List.all_eq_true.1 rfl) rfl : Reads ['t', 'r', 'u', 'e'] [.bool true])
  | .bool false, _, _ =>
      (reads_bare (List.all_eq_true.1 rfl) rfl : Reads ['f', 'a', 'l', 's', 'e'] [.bool false])
  | .num _, _, h => reads_bare h.bare h.token
  | .str text, _, _ => by
      have hstring := reads_renderString text .nil
      rwa [List.append_nil] at hstring
  | .arr [], _, _ => (Reads.nil.mark rfl (by decide) rfl rfl).mark rfl (by decide) rfl rfl
  | .arr (v :: rest), depth, h => by
      have hclose : Reads (newline depth ++ [']']) [.closeBracket] :=
        (Reads.nil.mark rfl (by decide) rfl rfl).newline depth
      have hitems := reads_renderItems rest depth h.2 hclose (stops_newline depth _)
      have hvalue := (reads_renderAt v (depth + 1) h.1).append hitems
        (stops_renderItems rest depth (stops_newline depth _))
      have hopen := (hvalue.newline (depth + 1)).mark (c := '[') rfl (by decide) rfl rfl
      simpa only [renderAt, tokens, List.append_assoc] using hopen
  | .obj [], _, _ => (Reads.nil.mark rfl (by decide) rfl rfl).mark rfl (by decide) rfl rfl
  | .obj ((key, v) :: rest), depth, h => by
      have hclose : Reads (newline depth ++ ['\x7d']) [.closeBrace] :=
        (Reads.nil.mark rfl (by decide) rfl rfl).newline depth
      have hmembers := reads_renderMembers rest depth h.2 hclose (stops_newline depth _)
      have hvalue := (reads_renderAt v (depth + 1) h.1).append hmembers
        (stops_renderMembers rest depth (stops_newline depth _))
      have hcolon := (hvalue.space (c := ' ') rfl).mark (c := ':') rfl (by decide) rfl rfl
      have hopen := ((reads_renderString key hcolon).newline (depth + 1)).mark (c := '\x7b') rfl
        (by decide) rfl rfl
      simpa only [renderAt, tokens, List.append_assoc, List.cons_append, List.nil_append] using hopen

/-- The written form of further items is read as their tokens, followed by the rest. -/
theorem reads_renderItems : ∀ (items : List Json) (depth : Nat), LegibleItems items →
    ∀ {rest : List Char} {read : List Token}, Reads rest read → Stops rest →
      Reads (renderItems depth items ++ rest) (itemTokens items ++ read)
  | [], _, _, _, _, hrest, _ => hrest
  | v :: items, depth, h, rest, read, hrest, hstops => by
      have hitems := reads_renderItems items depth h.2 hrest hstops
      have hvalue := (reads_renderAt v (depth + 1) h.1).append hitems
        (stops_renderItems items depth hstops)
      have hcomma := (hvalue.newline (depth + 1)).mark (c := ',') rfl (by decide) rfl rfl
      simpa only [renderItems, itemTokens, List.append_assoc, List.cons_append] using hcomma

/-- The written form of further members is read as their tokens, followed by the rest. -/
theorem reads_renderMembers : ∀ (members : List (Option String × Json)) (depth : Nat),
    LegibleMembers members → ∀ {rest : List Char} {read : List Token}, Reads rest read →
      Stops rest → Reads (renderMembers depth members ++ rest) (memberTokens members ++ read)
  | [], _, _, _, _, hrest, _ => hrest
  | (key, v) :: members, depth, h, rest, read, hrest, hstops => by
      have hmembers := reads_renderMembers members depth h.2 hrest hstops
      have hvalue := (reads_renderAt v (depth + 1) h.1).append hmembers
        (stops_renderMembers members depth hstops)
      have hcolon := (hvalue.space (c := ' ') rfl).mark (c := ':') rfl (by decide) rfl rfl
      have hcomma := ((reads_renderString key hcolon).newline (depth + 1)).mark (c := ',') rfl
        (by decide) rfl rfl
      simpa only [renderMembers, memberTokens, List.append_assoc, List.cons_append,
        List.nil_append] using hcomma

end

/-- The tokens of a written value are the tokens of the value. -/
theorem tokens?_render {v : Json} (h : v.Legible) : tokens? v.render = some v.tokens := by
  obtain ⟨lexer, hfeed, hfinish⟩ := reads_renderAt v 0 h []
  have hstart : (⟨.between, []⟩ : Lexer) = Lexer.start := rfl
  rw [tokens?, render, ← hstart, hfeed]
  exact hfinish

end Netlist.Json
