/-
Module: Netlist.Proofs.Rom.Scanning
Layer: Proofs
Purpose: What scanning an image amounts to. The text of an image ends at its first NUL byte; it is cut into
  lines, each line ends at its first `#`, and what is left of it is cut into tokens at white space. Scanning
  a byte at a time, with room for a number of words, reads exactly the first tokens of this list, fails at
  the first of them that is no word, and notes whether there are more.
Imports: Netlist.Proofs.Sequence, Netlist.Proofs.Text.Words, Netlist.Rom.Image
Main exports: ImageToken, ImageToken.word, RomImage.tokens, RomImage.gather, Scanner.tokensFrom,
  Scanner.run_eq_gather, RomImage.scan_eq_gather
-/
import Netlist.Proofs.Sequence
import Netlist.Proofs.Text.Words
import Netlist.Rom.Image

namespace Netlist

/-!
### The tokens of an image
-/

/-- A token of an image. -/
structure ImageToken where
  /-- The number of its line, from one. -/
  line : Nat
  /-- Its bytes. -/
  bytes : List UInt8
deriving Repr, DecidableEq

/-- The word that a token spells. A token that is too long is reported by its first bytes. -/
def ImageToken.word (token : ImageToken) : Except RomError Word :=
  if Scanner.tokenLimit < token.bytes.length then
    .error (Scanner.badToken token.line (token.bytes.take Scanner.tokenLimit) "...")
  else
    match Scanner.word? token.bytes with
    | some word => .ok word
    | none => .error (Scanner.badToken token.line token.bytes "")

namespace RomImage

/-- The tokens of a line: the pieces between white space in front of the first `#`. -/
def lineTokens (line : List UInt8) : List (List UInt8) :=
  Text.wordsBy Scanner.isSpace (line.takeWhile (fun b => b != 0x23))

/-- The tokens of lines that are numbered from `first` on. -/
def numbered (first : Nat) (lines : List (List UInt8)) : List ImageToken :=
  (lines.zipIdx first).flatMap (fun e => (lineTokens e.1).map (ImageToken.mk e.2))

/-- The tokens of an image: those of its lines in front of the first NUL byte. -/
def tokens (bytes : List UInt8) : List ImageToken :=
  numbered 1 ((bytes.takeWhile (fun b => b != 0)).splitOn 0x0A)

/-- The image of words that have been read and of tokens that follow, when there is room for `limit`
    words. -/
def gather (limit : Nat) (read : List Word) (tokens : List ImageToken) : Except RomError RomImage := do
  let words ← (tokens.take (limit - read.length)).mapM ImageToken.word
  .ok ⟨read ++ words, decide (limit - read.length < tokens.length)⟩

theorem numbered_cons (first : Nat) (line : List UInt8) (lines : List (List UInt8)) :
    numbered first (line :: lines) =
      (lineTokens line).map (ImageToken.mk first) ++ numbered (first + 1) lines := by
  simp [numbered]

theorem gather_nil (limit : Nat) (read : List Word) : gather limit read [] = .ok ⟨read, false⟩ := by
  simp [gather, bind, Except.bind, pure, Except.pure]

/-- Where there is room, the next token is read. -/
theorem gather_cons {limit : Nat} {read : List Word} (h : read.length < limit) (token : ImageToken)
    (later : List ImageToken) :
    gather limit read (token :: later) = token.word >>= fun word => gather limit (read ++ [word]) later := by
  have hroom : limit - read.length = limit - (read.length + 1) + 1 := by omega
  unfold gather
  rw [hroom, List.take_succ_cons, List.mapM_cons]
  cases token.word with
  | error fault => rfl
  | ok word =>
      simp only [List.length_append, List.length_cons, Nat.add_lt_add_iff_right]
      cases (later.take (limit - (read.length + 1))).mapM ImageToken.word with
      | error fault => rfl
      | ok words => simp [bind, Except.bind, pure, Except.pure]

/-- Where there is none, the image is truncated. -/
theorem gather_of_full {limit : Nat} {read : List Word} (h : limit ≤ read.length) (token : ImageToken)
    (later : List ImageToken) : gather limit read (token :: later) = .ok ⟨read, true⟩ := by
  have hroom : limit - read.length = 0 := by omega
  unfold gather
  rw [hroom, List.take_zero, List.mapM_nil]
  simp [bind, Except.bind, pure, Except.pure]

end RomImage

namespace Scanner

/-!
### Tokens byte by byte
-/

/-- Adds the token under way, last byte first, in front of the tokens after it. -/
def closeToken (line : Nat) (token : List UInt8) (later : List ImageToken) : List ImageToken :=
  if token.isEmpty then later else ⟨line, token.reverse⟩ :: later

/-- The tokens of bytes that follow a token under way, on a line that has turned into a comment or not. -/
def tokensFrom (line : Nat) (inComment : Bool) (token : List UInt8) : List UInt8 → List ImageToken
  | [] => closeToken line token []
  | b :: rest =>
    if b = 0 then closeToken line token []
    else if b = 0x0A then closeToken line token (tokensFrom (line + 1) false [] rest)
    else if b = 0x23 then closeToken line token (tokensFrom line true [] rest)
    else if inComment then tokensFrom line true token rest
    else if isSpace b then closeToken line token (tokensFrom line false [] rest)
    else tokensFrom line false (b :: token) rest

theorem closeToken_eq (line : Nat) (token : List UInt8) (pieces : List (List UInt8))
    (later : List ImageToken) :
    ((token.reverse :: pieces).filter (fun piece => !piece.isEmpty)).map (ImageToken.mk line) ++ later =
      closeToken line token
        ((pieces.filter (fun piece => !piece.isEmpty)).map (ImageToken.mk line) ++ later) := by
  cases token with
  | nil => rfl
  | cons b rest => simp [closeToken]

/-- Where nothing more belongs to a line, the token under way is its last one; a comment has none. -/
theorem closeToken_last {inComment : Bool} {token : List UInt8} (hcomment : inComment = true → token = [])
    (line : Nat) (later : List ImageToken) :
    closeToken line token later =
      (if inComment then []
        else ([token.reverse].filter (fun piece => !piece.isEmpty)).map (ImageToken.mk line)) ++ later := by
  cases inComment with
  | true =>
      cases hcomment rfl
      rfl
  | false => exact (closeToken_eq line token [] later).symm

/-- The tokens that are found byte by byte are those of the rest of the line, unless it is a comment, and
    those of the lines after it. -/
theorem tokensFrom_eq {line : Nat} {inComment : Bool} {token bytes first : List UInt8}
    {later : List (List UInt8)} (hcomment : inComment = true → token = [])
    (hlines : (bytes.takeWhile (fun b => b != 0)).splitOn 0x0A = first :: later) :
    tokensFrom line inComment token bytes =
      (if inComment then []
        else (((first.takeWhile (fun b => b != 0x23)).splitOnPPrepend isSpace token).filter
          (fun piece => !piece.isEmpty)).map (ImageToken.mk line)) ++
      RomImage.numbered (line + 1) later := by
  induction bytes generalizing line inComment token first later with
  | nil =>
      cases hlines
      exact closeToken_last hcomment line []
  | cons b rest ih =>
      unfold tokensFrom
      by_cases hnul : b = 0
      · -- the image ends here
        cases hnul
        cases hlines
        exact closeToken_last hcomment line []
      obtain ⟨next, others, hrest⟩ := List.exists_cons_of_ne_nil
        (List.splitOn_ne_nil 0x0A (rest.takeWhile (fun b => b != 0)))
      rw [List.takeWhile_cons_of_pos (by simpa using hnul), List.splitOn_cons_eq_if_modifyHead, hrest]
        at hlines
      rw [if_neg hnul]
      by_cases hnewline : b = 0x0A
      · -- the line ends here
        cases hnewline
        cases hlines
        rw [if_pos rfl, ih (fun h => by cases h) hrest, RomImage.numbered_cons]
        exact closeToken_last hcomment line _
      rw [if_neg (by simpa using hnewline), List.modifyHead_cons] at hlines
      cases hlines
      rw [if_neg hnewline]
      by_cases hhash : b = 0x23
      · cases hhash
        rw [if_pos rfl, ih (fun _ => rfl) hrest]
        exact closeToken_last hcomment line _
      rw [if_neg hhash, List.takeWhile_cons_of_pos (by simpa using hhash)]
      cases inComment with
      | true => exact ih hcomment hrest
      | false =>
          rw [if_neg (by decide)]
          by_cases hspace : isSpace b = true
          · rw [if_pos hspace, ih (fun h => by cases h) hrest, List.splitOnPPrepend_cons_pos hspace,
              List.splitOnPPrepend_nil_right]
            exact (closeToken_eq line token _ _).symm
          · rw [if_neg hspace, ih (fun h => by cases h) hrest,
              List.splitOnPPrepend_cons_neg (by simpa using hspace)]

/-- The tokens of an image are found byte by byte. -/
theorem tokensFrom_start (bytes : List UInt8) : tokensFrom 1 false [] bytes = RomImage.tokens bytes := by
  obtain ⟨first, later, hlines⟩ := List.exists_cons_of_ne_nil
    (List.splitOn_ne_nil 0x0A (bytes.takeWhile (fun b => b != 0)))
  unfold RomImage.tokens
  rw [tokensFrom_eq (fun h => by cases h) hlines, hlines, RomImage.numbered_cons,
    List.splitOnPPrepend_nil_right]
  rfl

/-!
### Scanning
-/

/-- The token under way is among the tokens to come, with the bytes that it has so far in front. -/
theorem exists_tokensFrom {token : List UInt8} (htoken : token ≠ []) (line : Nat) (bytes : List UInt8) :
    ∃ more later, tokensFrom line false token bytes = ⟨line, token.reverse ++ more⟩ :: later := by
  induction bytes generalizing token with
  | nil => exact ⟨[], [], by simp [tokensFrom, closeToken, htoken]⟩
  | cons b rest ih =>
      have hclosed : ∀ others, ∃ more later,
          closeToken line token others = ⟨line, token.reverse ++ more⟩ :: later :=
        fun others => ⟨[], others, by simp [closeToken, htoken]⟩
      unfold tokensFrom
      rw [if_neg (by decide : ¬ false = true)]
      split_ifs
      · exact hclosed _
      · exact hclosed _
      · exact hclosed _
      · exact hclosed _
      · obtain ⟨more, later, hmore⟩ := ih (List.cons_ne_nil b token)
        exact ⟨b :: more, later, by rw [hmore]; simp⟩

/-- Ending a token that is not too long reads its word. -/
theorem endToken_of_ne {s : Scanner} (htoken : s.token ≠ []) (hlength : s.token.length ≤ tokenLimit) :
    s.endToken = (ImageToken.word ⟨s.line, s.token.reverse⟩).map
      (fun word => { s with words := s.words.push word, token := [] }) := by
  unfold endToken ImageToken.word
  rw [if_neg (by simpa using htoken), if_neg (by simpa using hlength)]
  cases word? s.token.reverse <;> rfl

/-- Ending the token under way takes it from the front of the tokens to come. -/
theorem gather_closeToken {limit : Nat} {s : Scanner} (hlength : s.token.length ≤ tokenLimit)
    (hroom : s.token ≠ [] → s.words.size < limit) (later : List ImageToken) :
    RomImage.gather limit s.words.toList (closeToken s.line s.token later) =
      s.endToken >>= fun s => RomImage.gather limit s.words.toList later := by
  by_cases htoken : s.token = []
  · have hclose : closeToken s.line s.token later = later := by simp [closeToken, htoken]
    have hend : s.endToken = .ok s := by simp [endToken, htoken]
    rw [hclose, hend]
    rfl
  · have hclose : closeToken s.line s.token later = ⟨s.line, s.token.reverse⟩ :: later := by
      simp [closeToken, htoken]
    rw [hclose, RomImage.gather_cons (hroom htoken), endToken_of_ne htoken hlength]
    cases ImageToken.word ⟨s.line, s.token.reverse⟩ with
    | error fault => rfl
    | ok word =>
        show RomImage.gather limit (s.words.toList ++ [word]) later =
          RomImage.gather limit (s.words.push word).toList later
        rw [Array.toList_push]

/-- After a token has ended, the scanner is where it was, between two tokens. -/
theorem endToken_ok {s t : Scanner} (h : s.endToken = .ok t) :
    t.token = [] ∧ t.line = s.line ∧ t.inComment = s.inComment := by
  by_cases htoken : s.token = []
  · have hend : s.endToken = .ok s := by simp [endToken, htoken]
    cases hend.symm.trans h
    exact ⟨htoken, rfl, rfl⟩
  · unfold endToken at h
    rw [if_neg (by simpa using htoken)] at h
    cases hword : word? s.token.reverse with
    | none =>
        rw [hword] at h
        cases h
    | some word =>
        rw [hword] at h
        cases h
        exact ⟨rfl, rfl, rfl⟩

/-- A scanner between two tokens finishes with the words that it has. -/
theorem finish_of_token_nil {s : Scanner} (htoken : s.token = []) (truncated : Bool) :
    s.finish truncated = .ok ⟨s.words.toList, truncated⟩ := by
  have hend : s.endToken = .ok s := by simp [endToken, htoken]
  unfold finish
  rw [hend]
  rfl

/-- What is left to do after a byte. -/
def Turn.resume (limit : Nat) (rest : List UInt8) : Turn → Except RomError RomImage
  | .more s => s.run limit rest
  | .over s truncated => s.finish truncated

theorem run_cons (limit : Nat) (s : Scanner) (b : UInt8) (rest : List UInt8) :
    s.run limit (b :: rest) = s.feed limit b >>= Turn.resume limit rest := by
  unfold run
  rcases s.feed limit b with fault | (t | ⟨t, truncated⟩) <;> rfl

/-- At a byte that ends the token under way, this token is the next one. -/
theorem run_of_ends {limit : Nat} {s : Scanner} {b : UInt8} {rest : List UInt8}
    {later : List ImageToken} (hlength : s.token.length ≤ tokenLimit)
    (hroom : s.token ≠ [] → s.words.size < limit) (turn : Scanner → Turn)
    (hfeed : s.feed limit b = s.endToken >>= fun t => .ok (turn t))
    (hturn : ∀ t, t.token = [] → t.line = s.line → t.inComment = s.inComment →
      (turn t).resume limit rest = RomImage.gather limit t.words.toList later) :
    s.run limit (b :: rest) =
      RomImage.gather limit s.words.toList (closeToken s.line s.token later) := by
  rw [run_cons, hfeed, gather_closeToken hlength hroom]
  cases hend : s.endToken with
  | error fault => rfl
  | ok t =>
      obtain ⟨htoken, hline, hsame⟩ := endToken_ok hend
      exact hturn t htoken hline hsame

/-- At a byte that belongs to a token, scanning ends if there is no room for the token or if the token is
    too long. -/
theorem run_of_belongs {limit : Nat} {s : Scanner} {b : UInt8} {rest : List UInt8}
    (hlength : s.token.length ≤ tokenLimit) (hroom : s.token ≠ [] → s.words.size < limit)
    (hfeed : s.feed limit b =
      if s.token.isEmpty && decide (limit ≤ s.words.size) then .ok (.over s true)
      else if s.token.length = tokenLimit then .error (badToken s.line s.token.reverse "...")
      else .ok (.more { s with token := b :: s.token }))
    (hmore : s.token.length + 1 ≤ tokenLimit → s.words.size < limit →
      ({ s with token := b :: s.token } : Scanner).run limit rest =
        RomImage.gather limit s.words.toList (tokensFrom s.line false (b :: s.token) rest)) :
    s.run limit (b :: rest) =
      RomImage.gather limit s.words.toList (tokensFrom s.line false (b :: s.token) rest) := by
  obtain ⟨more, later, hnext⟩ := exists_tokensFrom (List.cons_ne_nil b s.token) s.line rest
  rw [run_cons, hfeed]
  by_cases hfull : s.token = [] ∧ limit ≤ s.words.size
  · -- there is no room for the token that starts here
    obtain ⟨htoken, hsize⟩ := hfull
    rw [if_pos (by simp [htoken, hsize]), hnext, RomImage.gather_of_full (by simpa using hsize)]
    exact finish_of_token_nil htoken true
  have hspace : s.words.size < limit := by
    by_cases htoken : s.token = []
    · exact Nat.lt_of_not_le fun hsize => hfull ⟨htoken, hsize⟩
    · exact hroom htoken
  rw [if_neg (by simpa using hfull)]
  by_cases hlong : s.token.length = tokenLimit
  · -- the token is too long already
    have hword : ImageToken.word ⟨s.line, (b :: s.token).reverse ++ more⟩ =
        .error (badToken s.line s.token.reverse "...") := by
      unfold ImageToken.word
      rw [if_pos (by simp; omega)]
      simp [← hlong]
    rw [if_pos hlong, hnext, RomImage.gather_cons (by simpa using hspace), hword]
    rfl
  · rw [if_neg hlong]
    exact hmore (by omega) hspace

/-- Scanning reads the tokens to come, as far as there is room. -/
theorem run_eq_gather {limit : Nat} {s : Scanner} (hlength : s.token.length ≤ tokenLimit)
    (hroom : s.token ≠ [] → s.words.size < limit) (hcomment : s.inComment = true → s.token = [])
    (bytes : List UInt8) :
    s.run limit bytes =
      RomImage.gather limit s.words.toList (tokensFrom s.line s.inComment s.token bytes) := by
  induction bytes generalizing s with
  | nil =>
      rw [tokensFrom, gather_closeToken hlength hroom]
      simp only [RomImage.gather_nil]
      rfl
  | cons b rest ih =>
      -- between two tokens nothing is asked of the scanner
      have hbetween : ∀ t : Scanner, t.token = [] → t.run limit rest =
          RomImage.gather limit t.words.toList (tokensFrom t.line t.inComment [] rest) := by
        intro t htoken
        rw [← htoken]
        apply ih
        · simp [htoken]
        · intro h
          exact absurd htoken h
        · intro _
          exact htoken
      unfold tokensFrom
      by_cases hnul : b = 0
      · rw [if_pos hnul]
        apply run_of_ends hlength hroom (fun t => .over t false)
        · simp [feed, hnul]
        · intro t htoken _ _
          rw [RomImage.gather_nil]
          exact finish_of_token_nil htoken false
      rw [if_neg hnul]
      by_cases hnewline : b = 0x0A
      · rw [if_pos hnewline]
        apply run_of_ends hlength hroom (fun t => .more { t with line := t.line + 1, inComment := false })
        · simp [feed, hnewline]
        · intro t htoken hline _
          rw [← hline]
          exact hbetween _ htoken
      rw [if_neg hnewline]
      by_cases hhash : b = 0x23
      · rw [if_pos hhash]
        apply run_of_ends hlength hroom (fun t => .more { t with inComment := true })
        · simp [feed, hhash]
        · intro t htoken hline _
          rw [← hline]
          exact hbetween _ htoken
      rw [if_neg hhash]
      cases hsame : s.inComment with
      | true =>
          have hfeed : s.feed limit b = .ok (.more s) := by simp [feed, hnul, hnewline, hhash, hsame]
          rw [if_pos rfl, run_cons, hfeed, hcomment hsame, ← hsame]
          exact hbetween s (hcomment hsame)
      | false =>
          rw [if_neg (by decide)]
          by_cases hspace : isSpace b = true
          · rw [if_pos hspace]
            apply run_of_ends hlength hroom (fun t => .more t)
            · simp [feed, hnul, hnewline, hhash, hsame, hspace]
            · intro t htoken hline hcomment'
              rw [← hline, ← hsame, ← hcomment']
              exact hbetween t htoken
          · rw [if_neg hspace]
            apply run_of_belongs hlength hroom
            · simp [feed, hnul, hnewline, hhash, hsame, hspace]
            · intro hlonger hsize
              rw [← hsame]
              apply ih
              · exact hlonger
              · intro _
                exact hsize
              · intro h
                exact absurd (hsame.symm.trans h) (by decide)

end Scanner

/-- Scanning an image for a number of words reads the first of its tokens. -/
theorem RomImage.scan_eq_gather (limit : Nat) (bytes : List UInt8) :
    scan limit bytes = gather limit [] (tokens bytes) := by
  unfold scan
  rw [Scanner.run_eq_gather (by decide) (fun h => absurd rfl h) (fun h => by cases h)]
  exact congrArg (gather limit []) (Scanner.tokensFrom_start bytes)

end Netlist
