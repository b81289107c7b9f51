import LoxLexer.Binary64.Reading
import LoxLexer.Diagnostic
import LoxLexer.Scanner.Cursor
import LoxLexer.Token.Basic

/-!
# The scanner

The scanner reads one lexeme after the other. The first character of a lexeme decides how to read
on; what comes of it is a token, nothing (blanks and comments), or a diagnostic, behind which
scanning goes on. The tokens read are kept, the latest first; diagnostics are handed on as they are
found.

* `Scanner.next` is `scan_token`, with `Cursor.readOn` for what it does behind the first character,
  and `Scanner.run` is `scan_tokens`. `Scanner.addToken` is `add_token`.
* `Cursor.readString`, `readNumber`, `readWord` and `readBlockComment` are `consume_if_match_string`,
  `consume_if_match_number`, `consume_if_match_identifier` and `consume_if_match_block_comment`. An
  error that leaves one of them early is a diagnostic in the `Reading` it returns.

Results:
* `Scanner.next` — one lexeme; `Scanner.run` — the whole text.
* `Scanner.place_lt_next` — every lexeme has at least one character, so scanning ends.

Out of scope: places and lines that wrap. They are natural numbers here; no text is so long that the
machine words that count them would.
-/

namespace LoxLexer

/-- What comes of a lexeme: a token's kind and value, nothing to keep, or a diagnostic. -/
abbrev Reading := Except Diagnostic (Option (Kind × Option Literal))

namespace Cursor

variable (source : String)

/-- Reads on behind an opening quote: the closing quote is part of the lexeme, not of the value. -/
def readString (c : Cursor) : Reading × Cursor :=
  let c := c.read source .string
  if c.atEnd source then (.error ⟨.unterminatedString, c.startLine⟩, c)
  else
    let c := c.skip source
    let lexeme := c.lexeme source
    let value := String.Pos.Raw.extract lexeme ⟨1⟩ ⟨lexeme.utf8ByteSize - 1⟩
    (.ok (some (.string, some (.string value))), c)

/-- Reads on behind a first digit. A point belongs to the number only if a digit follows it. A lexeme
that stood for no number would count as zero. -/
def readNumber (c : Cursor) : Reading × Cursor :=
  let c := c.read source .digits
  let c :=
    if c.peek source = some '.' && (c.peekSecond source).any Char.isDigit then
      (c.skip source).read source .digits
    else c
  let value := (Binary64.ofChars? (c.lexeme source).toList).getD .zero
  (.ok (some (.number, some (.number value))), c)

/-- Reads on behind the first character of a word. -/
def readWord (c : Cursor) : Reading × Cursor :=
  let c := c.read source .word
  (.ok (some (.ofWord (c.lexeme source).toList, none)), c)

/-- Reads on behind the opener of a block comment, through its closer. -/
def readBlockComment (c : Cursor) : Reading × Cursor :=
  let c := c.read source .blockComment
  if c.atEnd source then (.error ⟨.unterminatedBlockComment, c.startLine⟩, c)
  else (.ok none, (c.skip source).skip source)

/-- Reads on behind a slash: a line comment, a block comment, or division. -/
def readSlash (c : Cursor) : Reading × Cursor :=
  match c.accept source '/' with
  | (true, c) => (.ok none, c.read source .lineComment)
  | (false, c) =>
    match c.accept source '*' with
    | (true, c) => c.readBlockComment source
    | (false, c) => (.ok (some (.slash, none)), c)

/-- Reads on behind the first character of a lexeme. -/
def readOn (first : Char) (c : Cursor) : Reading × Cursor :=
  match Opening.of first with
  | .mark kind => (.ok (some (kind, none)), c)
  | .withEqual alone followed =>
    match c.accept source '=' with
    | (true, c) => (.ok (some (followed, none)), c)
    | (false, c) => (.ok (some (alone, none)), c)
  | .slash => c.readSlash source
  | .blank => (.ok none, c)
  | .lineFeed => (.ok none, c.newLine)
  | .quote => c.readString source
  | .digit => c.readNumber source
  | .wordStart => c.readWord source
  | .stray => (.error ⟨.unexpectedCharacter first, c.line⟩, c)

theorem le_readString (c : Cursor) : c.place.byteIdx ≤ (c.readString source).2.place.byteIdx := by
  have h := le_read source .string c
  unfold readString
  dsimp only
  split
  · exact h
  · exact Nat.le_trans h (le_skip source _)

theorem le_readNumber (c : Cursor) : c.place.byteIdx ≤ (c.readNumber source).2.place.byteIdx := by
  have h := le_read source .digits c
  unfold readNumber
  dsimp only
  split
  · exact Nat.le_trans h (Nat.le_trans (le_skip source _) (le_read source .digits _))
  · exact h

theorem le_readBlockComment (c : Cursor) :
    c.place.byteIdx ≤ (c.readBlockComment source).2.place.byteIdx := by
  have h := le_read source .blockComment c
  unfold readBlockComment
  dsimp only
  split
  · exact h
  · exact Nat.le_trans h (Nat.le_trans (le_skip source _) (le_skip source _))

theorem le_readSlash (c : Cursor) : c.place.byteIdx ≤ (c.readSlash source).2.place.byteIdx := by
  have h1 := le_accept source '/' c
  unfold readSlash
  split
  · next c1 hc1 =>
    rw [hc1] at h1
    exact Nat.le_trans h1 (le_read source .lineComment c1)
  · next c1 hc1 =>
    rw [hc1] at h1
    have h2 := le_accept source '*' c1
    split
    · next c2 hc2 =>
      rw [hc2] at h2
      exact Nat.le_trans h1 (Nat.le_trans h2 (le_readBlockComment source c2))
    · next c2 hc2 =>
      rw [hc2] at h2
      exact Nat.le_trans h1 h2

theorem le_readOn (first : Char) (c : Cursor) :
    c.place.byteIdx ≤ (c.readOn source first).2.place.byteIdx := by
  unfold readOn
  split
  · exact Nat.le_refl _
  · have h := le_accept source '=' c
    split
    · next c1 hc1 => rw [hc1] at h; exact h
    · next c1 hc1 => rw [hc1] at h; exact h
  · exact le_readSlash source c
  · exact Nat.le_refl _
  · exact Nat.le_refl _
  · exact le_readString source c
  · exact le_readNumber source c
  · exact le_read source .word c
  · exact Nat.le_refl _

end Cursor

/-- A cursor and the tokens read so far, the latest first. -/
structure Scanner where
  cursor : Cursor
  tokens : List Token

namespace Scanner

/-- In front of a text, with nothing read. -/
def new : Scanner := ⟨.first, []⟩

variable (source : String)

/-- Keeps the current lexeme as a token. -/
def addToken (s : Scanner) (kind : Kind) (literal : Option Literal) : Scanner :=
  { s with
    tokens := ⟨kind, s.cursor.lexeme source, literal, s.cursor.startLine⟩ :: s.tokens }

/-- Reads one lexeme. -/
def next (s : Scanner) : Except Diagnostic Unit × Scanner :=
  match s.cursor.beginLexeme.advance source with
  | (none, c) => (.ok (), { s with cursor := c })
  | (some first, c) =>
    match c.readOn source first with
    | (.error d, c) => (.error d, { s with cursor := c })
    | (.ok none, c) => (.ok (), { s with cursor := c })
    | (.ok (some (kind, literal)), c) =>
      (.ok (), { s with cursor := c }.addToken source kind literal)

theorem cursor_next_of_advance {s : Scanner} {first : Char} {c : Cursor}
    (h : s.cursor.beginLexeme.advance source = (some first, c)) :
    (s.next source).2.cursor = (c.readOn source first).2 := by
  unfold next
  rw [h]
  dsimp only
  split <;> next hr => simp [hr, addToken]

theorem place_lt_next {s : Scanner} (h : ¬ s.cursor.atEnd source) :
    s.cursor.place.byteIdx < (s.next source).2.cursor.place.byteIdx := by
  have hlt : s.cursor.place.byteIdx < source.utf8ByteSize := by
    simpa [Cursor.atEnd] using h
  have hpeek : s.cursor.beginLexeme.peek source = some (s.cursor.place.get source) := by
    simp [Cursor.peek, Cursor.charAt?, Cursor.beginLexeme, hlt]
  have hadv := Cursor.lt_skip source hpeek
  cases ha : s.cursor.beginLexeme.advance source with
  | mk first c =>
    have hc : s.cursor.beginLexeme.skip source = c := congrArg Prod.snd ha
    have hfirst : first = some (s.cursor.place.get source) := by
      simpa [Cursor.advance, hpeek] using (congrArg Prod.fst ha).symm
    rw [hc] at hadv
    subst hfirst
    rw [cursor_next_of_advance source ha]
    exact Nat.lt_of_lt_of_le hadv (Cursor.le_readOn source _ c)

/-- Hands the diagnostic of a lexeme on, if there is one. -/
def tell {σ : Type} (report : σ → Diagnostic → σ) (state : σ) : Except Diagnostic Unit → σ
  | .ok () => state
  | .error d => report state d

/-- Scans to the end of the text, handing every diagnostic to `report` as soon as it is found, and
closes the tokens with the end of input. -/
def run {σ : Type} (report : σ → Diagnostic → σ) (state : σ) (s : Scanner) : Scanner × σ :=
  if s.cursor.atEnd source then
    ({ s with tokens := .endOfInput s.cursor.line :: s.tokens }, state)
  else
    let read := s.next source
    run report (tell report state read.1) read.2
termination_by source.utf8ByteSize - s.cursor.place.byteIdx
decreasing_by
  have h : ¬ s.cursor.atEnd source = true := ‹_›
  have hlt := place_lt_next source h
  have : s.cursor.place.byteIdx < source.utf8ByteSize := by simpa [Cursor.atEnd] using h
  omega

end Scanner

end LoxLexer
