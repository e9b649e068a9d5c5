/-
Module: Netlist.Proofs.Rom.Tokens
Layer: Proofs
Purpose: What decides a scan. The tokens of an image are defined on its text as a whole, in two levels: lines,
  and pieces of lines. Scanning for a number of words gives the words of the first tokens or reports the
  first bad one among them, and nothing else of the text has a say: no byte behind a NUL, none inside a
  comment, and none behind the start of the token for which there is no room.
Imports: Netlist.Proofs.Rom.Scanning
Main exports: RomImage.textTokens, ImageToken.Spells, ImageToken.shown, Scanner.tokensFrom_append_congr,
  Scanner.tokensFrom_comment, Scanner.foretells_append, RomImage.scan_reads_tokens
-/
import Netlist.Proofs.Rom.Scanning

namespace Netlist

/-!
### Good tokens and bad ones
-/

namespace ImageToken

/-- A token is good: it has at most 32 bytes, and they are text that reads as a word. -/
def Spells (token : ImageToken) (word : Word) : Prop :=
  token.bytes.length ≤ 32 ∧
    ∃ text, Text.Utf8.decode? token.bytes = some text ∧ Text.Hex.parse text = some word

/-- How a bad token is shown. -/
def shown (token : ImageToken) : String :=
  if token.bytes.length ≤ 32 then String.ofList (Text.Utf8.decodeLossy token.bytes)
  else String.ofList (Text.Utf8.decodeLossy (token.bytes.take 32)) ++ "..."

/-- Reading a token gives the word that it spells, or else shows the token. -/
theorem word_eq (token : ImageToken) :
    token.word =
      if token.bytes.length ≤ 32 then
        ((Text.Utf8.decode? token.bytes).bind Text.Hex.parse).elim
          (.error (.badToken token.line token.shown)) .ok
      else .error (.badToken token.line token.shown) := by
  have hlimit : Scanner.tokenLimit = 32 := rfl
  unfold word shown Scanner.word?
  rw [hlimit]
  by_cases hlength : token.bytes.length ≤ 32
  · rw [if_neg (Nat.not_lt.2 hlength), if_pos hlength, if_pos hlength]
    cases (Text.Utf8.decode? token.bytes).bind Text.Hex.parse <;> simp [Scanner.badToken]
  · rw [if_pos (Nat.not_le.1 hlength), if_neg hlength, if_neg hlength]
    rfl

theorem word_eq_ok_iff {token : ImageToken} {word : Word} : token.word = .ok word ↔ token.Spells word := by
  rw [word_eq, Spells, ← Option.bind_eq_some_iff]
  by_cases hlength : token.bytes.length ≤ 32
  · cases (Text.Utf8.decode? token.bytes).bind Text.Hex.parse <;> simp [hlength]
  · simp [hlength]

theorem word_of_bad {token : ImageToken} (hbad : ¬ ∃ word, token.Spells word) :
    token.word = .error (.badToken token.line token.shown) := by
  simp only [Spells, ← Option.bind_eq_some_iff] at hbad
  rw [word_eq]
  by_cases hlength : token.bytes.length ≤ 32
  · cases hread : (Text.Utf8.decode? token.bytes).bind Text.Hex.parse with
    | none => rw [if_pos hlength, Option.elim_none]
    | some word => exact absurd ⟨word, hlength, hread⟩ hbad
  · rw [if_neg hlength]

end ImageToken

/-!
### Lines and pieces of lines
-/

namespace RomImage

/-- White space within a line: space, tab, form feed and carriage return. -/
def isBlank (b : UInt8) : Bool :=
  b == 0x20 || b == 0x09 || b == 0x0C || b == 0x0D

/-- The tokens of an image, from its text as a whole: the text ends at its first NUL byte and is cut into
    lines at newlines; each line ends at its first `#` and is cut into tokens at white space; each token
    carries the number of its line. -/
def textTokens (bytes : List UInt8) : List ImageToken :=
  (((bytes.takeWhile (fun b => b != 0)).splitOn 0x0A).zipIdx 1).flatMap (fun e =>
    (((e.1.takeWhile (fun b => b != 0x23)).splitOnP isBlank).filter (fun piece => !piece.isEmpty)).map
      (ImageToken.mk e.2))

theorem splitOnP_congr {p q : UInt8 → Bool} {line : List UInt8} (h : ∀ b ∈ line, p b = q b) :
    line.splitOnP p = line.splitOnP q := by
  induction line with
  | nil => rfl
  | cons b rest ih =>
      rw [List.splitOnP_cons_eq_if_modifyHead, List.splitOnP_cons_eq_if_modifyHead, h b List.mem_cons_self,
        ih (fun c hc => h c (List.mem_cons_of_mem b hc))]

theorem notMem_of_mem_splitOn {bytes line : List UInt8} {b : UInt8} (h : line ∈ bytes.splitOn b) :
    b ∉ line := by
  induction bytes generalizing line with
  | nil =>
      rw [List.splitOn_nil, List.mem_singleton] at h
      rw [h]
      exact List.not_mem_nil
  | cons a rest ih =>
      rw [List.splitOn_cons_eq_if_modifyHead] at h
      split at h
      · rcases List.mem_cons.1 h with rfl | h
        · exact List.not_mem_nil
        · exact ih h
      · next hne =>
          obtain ⟨first, others, hsplit⟩ := List.exists_cons_of_ne_nil (List.splitOn_ne_nil b rest)
          rw [hsplit, List.modifyHead_cons] at h
          rcases List.mem_cons.1 h with rfl | h
          · rw [List.mem_cons, not_or]
            exact ⟨fun heq => hne (by simp [heq]), ih (hsplit ▸ List.mem_cons_self)⟩
          · exact ih (hsplit ▸ List.mem_cons_of_mem first h)

/-- A line has no newline, so the two ways to say what is white space in it agree. -/
theorem tokens_eq_textTokens (bytes : List UInt8) : tokens bytes = textTokens bytes := by
  unfold tokens textTokens numbered lineTokens Text.wordsBy
  apply List.flatMap_congr
  intro e he
  have hline := notMem_of_mem_splitOn (List.fst_mem_of_mem_zipIdx he)
  rw [splitOnP_congr]
  intro b hb
  have hnewline : (b == 0x0A) = false :=
    beq_eq_false_iff_ne.2 (fun heq => hline (heq ▸ List.takeWhile_subset _ hb))
  rw [Scanner.isSpace, isBlank, hnewline, Bool.or_false]

end RomImage

/-!
### Bytes without a say
-/

namespace Scanner

/-- What follows some bytes matters only for the tokens that it gives wherever the scanner stands. -/
theorem tokensFrom_append_congr {rest rest' : List UInt8}
    (h : ∀ line inComment token, tokensFrom line inComment token rest = tokensFrom line inComment token rest')
    (bytes : List UInt8) (line : Nat) (inComment : Bool) (token : List UInt8) :
    tokensFrom line inComment token (bytes ++ rest) = tokensFrom line inComment token (bytes ++ rest') := by
  induction bytes generalizing line inComment token with
  | nil => exact h line inComment token
  | cons b before ih => simp only [List.cons_append, tokensFrom, ih]

/-- The bytes of a comment give no tokens. -/
theorem tokensFrom_comment {comment : List UInt8} (h : ∀ b ∈ comment, b ≠ 0 ∧ b ≠ 0x0A) (line : Nat)
    (rest : List UInt8) : tokensFrom line true [] (comment ++ rest) = tokensFrom line true [] rest := by
  induction comment with
  | nil => rfl
  | cons b comment ih =>
      rcases h b List.mem_cons_self with ⟨hnul, hnewline⟩
      rw [List.cons_append, tokensFrom, if_neg hnul, if_neg hnewline]
      have hlater := ih (fun c hc => h c (List.mem_cons_of_mem b hc))
      -- a further `#` ends no token, as there is none under way
      by_cases hhash : b = 0x23
      · rw [if_pos hhash]
        exact hlater
      · rw [if_neg hhash, if_pos rfl]
        exact hlater

/-- The tokens of `long` start with those of `short`, except that the last one of these may go on. -/
def Foretells (short long : List ImageToken) : Prop :=
  ∀ n < short.length, n < long.length ∧ long.take n = short.take n

theorem Foretells.closeToken {short long : List ImageToken} (h : Foretells short long) (line : Nat)
    (token : List UInt8) : Foretells (closeToken line token short) (closeToken line token long) := by
  unfold Scanner.closeToken
  split
  · exact h
  · intro n hn
    cases n with
    | zero => exact ⟨by simp, rfl⟩
    | succ n =>
        rcases h n (by simpa using hn) with ⟨hlt, htake⟩
        exact ⟨by simpa using hlt, by rw [List.take_succ_cons, List.take_succ_cons, htake]⟩

/-- Bytes that follow leave the tokens before the last one as they are. -/
theorem foretells_append {inComment : Bool} {token : List UInt8} (hcomment : inComment = true → token = [])
    (line : Nat) (bytes after : List UInt8) :
    Foretells (tokensFrom line inComment token bytes) (tokensFrom line inComment token (bytes ++ after)) := by
  induction bytes generalizing line inComment token with
  | nil =>
      intro n hn
      by_cases htoken : token = []
      · simp [tokensFrom, Scanner.closeToken, htoken] at hn
      have hsame : inComment = false := by
        cases inComment with
        | true => exact absurd (hcomment rfl) htoken
        | false => rfl
      have hlast : n = 0 := by simpa [tokensFrom, Scanner.closeToken, htoken] using hn
      obtain ⟨more, later, hnext⟩ := exists_tokensFrom htoken line after
      rw [hlast, hsame, List.nil_append, hnext]
      exact ⟨by simp, rfl⟩
  | cons b rest ih =>
      have hbetween : ∀ line inComment,
          Foretells (tokensFrom line inComment [] rest) (tokensFrom line inComment [] (rest ++ after)) :=
        fun line inComment => ih (fun _ => rfl) line
      rw [List.cons_append]
      unfold tokensFrom
      split_ifs with hnul hnewline hhash hsame hspace
      · intro n hn
        exact ⟨hn, rfl⟩
      · exact (hbetween _ _).closeToken line token
      · exact (hbetween _ _).closeToken line token
      · exact ih (fun _ => hcomment hsame) line
      · exact (hbetween _ _).closeToken line token
      · exact ih (fun h => by cases h) line

end Scanner

namespace RomImage

theorem tokens_append_nul (bytes after : List UInt8) : tokens (bytes ++ 0 :: after) = tokens bytes := by
  have hend : ∀ line inComment token,
      Scanner.tokensFrom line inComment token (0 :: after) = Scanner.tokensFrom line inComment token [] :=
    fun _ _ _ => rfl
  rw [← Scanner.tokensFrom_start, Scanner.tokensFrom_append_congr hend, List.append_nil,
    Scanner.tokensFrom_start]

theorem tokens_append_comment (bytes : List UInt8) {comment : List UInt8}
    (h : ∀ b ∈ comment, b ≠ 0 ∧ b ≠ 0x0A) (rest : List UInt8) :
    tokens (bytes ++ 0x23 :: (comment ++ rest)) = tokens (bytes ++ 0x23 :: rest) := by
  rw [← Scanner.tokensFrom_start, ← Scanner.tokensFrom_start]
  apply Scanner.tokensFrom_append_congr
  intro line inComment token
  exact congrArg (Scanner.closeToken line token) (Scanner.tokensFrom_comment h line rest)

/-- Where the text already has a token too many, what follows makes no difference. -/
theorem scan_append_of_full {limit : Nat} {bytes : List UInt8} (h : limit < (tokens bytes).length)
    (after : List UInt8) : scan limit (bytes ++ after) = scan limit bytes := by
  have hforetells : Scanner.Foretells (tokens bytes) (tokens (bytes ++ after)) := by
    rw [← Scanner.tokensFrom_start, ← Scanner.tokensFrom_start]
    exact Scanner.foretells_append (fun _ => rfl) 1 bytes after
  rcases hforetells limit h with ⟨hlonger, htake⟩
  rw [scan_eq_gather, scan_eq_gather, gather, gather, List.length_nil, Nat.sub_zero, htake]
  simp only [hlonger, h]

/-- Scanning an image for a number of words, by its tokens. If the first of them, as many as there is room
    for, are good, the image has their words and is truncated exactly when there are more tokens; otherwise
    the first bad one is reported, by its line and its text. Neither the bytes behind a NUL nor those inside
    a comment nor those behind the start of the token without room make a difference. -/
theorem scan_reads_tokens (limit : Nat) (bytes : List UInt8) :
    ((∀ token ∈ (textTokens bytes).take limit, ∃ word, token.Spells word) →
      ∃ words, List.Forall₂ ImageToken.Spells ((textTokens bytes).take limit) words ∧
        scan limit bytes = .ok ⟨words, decide (limit < (textTokens bytes).length)⟩) ∧
    (∀ before token later, (textTokens bytes).take limit = before ++ token :: later →
      (∀ good ∈ before, ∃ word, good.Spells word) → (¬ ∃ word, token.Spells word) →
        scan limit bytes = .error (.badToken token.line token.shown)) ∧
    (∀ after, scan limit (bytes ++ 0 :: after) = scan limit bytes) ∧
    (∀ comment rest, (∀ b ∈ comment, b ≠ 0 ∧ b ≠ 0x0A) →
      scan limit (bytes ++ 0x23 :: (comment ++ rest)) = scan limit (bytes ++ 0x23 :: rest)) ∧
    (limit < (textTokens bytes).length →
      ∀ after, scan limit (bytes ++ after) = scan limit bytes) := by
  rw [← tokens_eq_textTokens]
  have hscan : scan limit bytes = ((tokens bytes).take limit).mapM ImageToken.word >>= fun words =>
      .ok ⟨words, decide (limit < (tokens bytes).length)⟩ := scan_eq_gather limit bytes
  refine ⟨?_, ?_, ?_, ?_, ?_⟩
  · intro hgood
    rcases exists_forall₂ hgood with ⟨words, hwords⟩
    have hread : ((tokens bytes).take limit).mapM ImageToken.word = .ok words := by
      apply mapM_eq_ok_iff.2
      exact hwords.imp (fun _ _ => ImageToken.word_eq_ok_iff.2)
    refine ⟨words, hwords, ?_⟩
    rw [hscan, hread]
    rfl
  · intro before token later hsplit hgood hbad
    have hread : ((tokens bytes).take limit).mapM ImageToken.word =
        .error (.badToken token.line token.shown) := by
      rw [hsplit]
      apply mapM_eq_error_iff.2
      rcases exists_forall₂ hgood with ⟨words, hwords⟩
      refine ⟨before.length, token, by simp, ImageToken.word_of_bad hbad, words, ?_⟩
      rw [List.take_left]
      exact hwords.imp (fun _ _ => ImageToken.word_eq_ok_iff.2)
    rw [hscan, hread]
    rfl
  · intro after
    rw [scan_eq_gather, scan_eq_gather, tokens_append_nul]
  · intro comment rest hcomment
    rw [scan_eq_gather, scan_eq_gather, tokens_append_comment bytes hcomment]
  · exact scan_append_of_full

/-- A word on each of two lines, the first with a comment, and a token that is no word. -/
def twoLines : List UInt8 :=
  Text.Utf8.encode "a#;\n12 zz"

/-- With room for two words the image is truncated and its end has no say; with room for three the last
    token is reported. -/
theorem twoLines_read_or_refused :
    textTokens twoLines = [⟨1, [0x61]⟩, ⟨2, [0x31, 0x32]⟩, ⟨2, [0x7A, 0x7A]⟩] ∧
    (∃ words, List.Forall₂ ImageToken.Spells [⟨1, [0x61]⟩, ⟨2, [0x31, 0x32]⟩] words ∧
      scan 2 twoLines = .ok ⟨words, true⟩) ∧
    (∀ after, scan 2 (twoLines ++ after) = scan 2 twoLines) ∧
    scan 3 twoLines = .error (.badToken 2 "zz") := by
  have htokens : textTokens twoLines = [⟨1, [0x61]⟩, ⟨2, [0x31, 0x32]⟩, ⟨2, [0x7A, 0x7A]⟩] := by
    decide +kernel
  have hgood : ∀ token ∈ [⟨1, [0x61]⟩, (⟨2, [0x31, 0x32]⟩ : ImageToken)], ∃ word, token.Spells word := by
    simp only [List.mem_cons, List.not_mem_nil, or_false]
    intro token htoken
    rcases htoken with rfl | rfl
    · exact ⟨0xA, by decide, ['a'], by decide +kernel, by decide +kernel⟩
    · exact ⟨0x12, by decide, ['1', '2'], by decide +kernel, by decide +kernel⟩
  have hbad : ¬ ∃ word, (⟨2, [0x7A, 0x7A]⟩ : ImageToken).Spells word := by
    intro h
    rcases h with ⟨word, hword⟩
    have hfault : (⟨2, [0x7A, 0x7A]⟩ : ImageToken).word = .error (.badToken 2 "zz") := by decide +kernel
    cases hfault.symm.trans (ImageToken.word_eq_ok_iff.2 hword)
  rcases scan_reads_tokens 2 twoLines with ⟨hread, -, -, -, hend⟩
  rcases scan_reads_tokens 3 twoLines with ⟨-, hrefused, -⟩
  rw [htokens] at hread hend hrefused
  refine ⟨htokens, hread hgood, hend (by decide), ?_⟩
  have hreport := hrefused _ _ _ rfl hgood hbad
  rwa [show ImageToken.shown ⟨2, [0x7A, 0x7A]⟩ = "zz" by decide +kernel] at hreport

end RomImage

end Netlist
