import LoxLexer.Segment.Opening

/-!
# A cursor in a source text

A source text is read through a cursor: it counts bytes, looks at most two characters ahead, and
knows where and on which line the lexeme being read began. A line feed starts a new line only for
those who ask for it: the runs that may hold one count it, the others never read one.

* `Cursor` has the places and lines of the scanner: `current_lexeme_start`, `current`, `line` and
  `lexeme_line`. `peek` and `peekSecond` are `peek_one` and `peek_two`, `accept` is `match_one`, and
  `advance`, `lexeme` and `atEnd` are `advance`, `current_lexeme` and `is_at_end`.
* `Cursor.read` is any of the loops that read on while the next characters allow it. They differ in
  what they go on with (`Run.goesOn`) and in whether they count line feeds (`Run.countsLines`).

Results:
* `Cursor.advance`, `Cursor.accept` — one character read, any or a given one.
* `Cursor.read` — a whole run: digits, a word, the inside of a string or a comment.
* `Cursor.lt_skip`, `Cursor.le_read` — a cursor never goes back, and at a character it moves on.
-/

namespace LoxLexer

/-- Where reading stands in a source text. Places are counted in bytes. -/
structure Cursor where
  /-- Where the current lexeme starts. -/
  start : String.Pos.Raw
  /-- Where the next character to read starts. -/
  place : String.Pos.Raw
  /-- The line reading has come to, counted from one. -/
  line : Nat
  /-- The line on which the current lexeme starts. -/
  startLine : Nat
deriving DecidableEq

/-- The runs of characters that are read in one go. -/
inductive Run where
  | string | digits | word | lineComment | blockComment
deriving DecidableEq, Repr

namespace Run

/-- Whether a run takes up the next character, which may depend on the one behind it. -/
def goesOn : Run → (next second : Option Char) → Bool
  | _, none, _ => false
  | string, some a, _ => a ≠ '"'
  | digits, some a, _ => a.isDigit
  | word, some a, _ => isWordPart a
  | lineComment, some a, _ => a ≠ '\n'
  | blockComment, some a, second => !(a = '*' && second = some '/')

/-- Whether the line feeds in a run are counted. -/
def countsLines : Run → Bool
  | string | blockComment => true
  | digits | word | lineComment => false

end Run

namespace Cursor

/-- The cursor in front of a text. -/
def first : Cursor := ⟨0, 0, 1, 1⟩

variable (source : String)

/-- The character that starts at a place, if the text has not ended there. -/
def charAt? (place : String.Pos.Raw) : Option Char :=
  if place.byteIdx < source.utf8ByteSize then some (place.get source) else none

/-- The next character. -/
def peek (c : Cursor) : Option Char := charAt? source c.place

/-- The character after the next one. -/
def peekSecond (c : Cursor) : Option Char := charAt? source (c.place.next source)

/-- Whether the whole text has been read. -/
def atEnd (c : Cursor) : Bool := source.utf8ByteSize ≤ c.place.byteIdx

/-- Reads the next character. -/
def advance (c : Cursor) : Option Char × Cursor :=
  match c.peek source with
  | some a => (some a, { c with place := c.place + a })
  | none => (none, c)

/-- Reads the next character, whatever it is. -/
def skip (c : Cursor) : Cursor := (c.advance source).2

/-- Reads the next character if it is the expected one. -/
def accept (expected : Char) (c : Cursor) : Bool × Cursor :=
  if c.peek source = some expected then (true, c.skip source) else (false, c)

/-- Begins a lexeme at the next character. -/
def beginLexeme (c : Cursor) : Cursor := { c with start := c.place, startLine := c.line }

/-- What has been read since the lexeme began. -/
def lexeme (c : Cursor) : String := String.Pos.Raw.extract source c.start c.place

/-- Goes on to the next line. -/
def newLine (c : Cursor) : Cursor := { c with line := c.line + 1 }

/-- One character of a run. -/
def step (run : Run) (c : Cursor) : Cursor :=
  if run.countsLines && c.peek source = some '\n' then c.newLine.skip source else c.skip source

/-! ## A cursor moves on -/

theorem skip_of_peek {c : Cursor} {a : Char} (h : c.peek source = some a) :
    c.skip source = { c with place := c.place + a } := by
  simp [skip, advance, h]

theorem skip_of_peek_eq_none {c : Cursor} (h : c.peek source = none) : c.skip source = c := by
  simp [skip, advance, h]

theorem place_lt_of_peek {c : Cursor} {a : Char} (h : c.peek source = some a) :
    c.place.byteIdx < source.utf8ByteSize := by
  unfold peek charAt? at h
  split at h
  · assumption
  · simp at h

theorem lt_skip {c : Cursor} {a : Char} (h : c.peek source = some a) :
    c.place.byteIdx < (c.skip source).place.byteIdx := by
  rw [skip_of_peek source h]
  simpa using a.utf8Size_pos

theorem le_skip (c : Cursor) : c.place.byteIdx ≤ (c.skip source).place.byteIdx := by
  cases h : c.peek source with
  | none => exact Nat.le_of_eq (by rw [skip_of_peek_eq_none source h])
  | some a => exact Nat.le_of_lt (lt_skip source h)

@[simp] theorem place_step (run : Run) (c : Cursor) :
    (c.step source run).place = (c.skip source).place := by
  unfold step
  split
  · cases h : c.peek source with
    | none =>
      have h' : c.newLine.peek source = none := h
      rw [skip_of_peek_eq_none source h, skip_of_peek_eq_none source h']
      rfl
    | some a =>
      have h' : c.newLine.peek source = some a := h
      rw [skip_of_peek source h, skip_of_peek source h']
      rfl
  · rfl

/-- Only a character can be taken up by a run. -/
theorem exists_peek_of_goesOn {run : Run} {next second : Option Char}
    (h : run.goesOn next second = true) : ∃ a, next = some a := by
  cases next with
  | none => simp [Run.goesOn] at h
  | some a => exact ⟨a, rfl⟩

/-- Reads a whole run, up to the first character it does not take up. -/
def read (run : Run) (c : Cursor) : Cursor :=
  if run.goesOn (c.peek source) (c.peekSecond source) then read run (c.step source run) else c
termination_by source.utf8ByteSize - c.place.byteIdx
decreasing_by
  obtain ⟨a, ha⟩ := exists_peek_of_goesOn ‹_›
  have := place_lt_of_peek source ha
  have := lt_skip source ha
  rw [place_step]
  omega

theorem le_read (run : Run) (c : Cursor) :
    c.place.byteIdx ≤ (c.read source run).place.byteIdx := by
  fun_induction read source run c with
  | case1 c _ ih =>
    have := le_skip source c
    rw [place_step] at ih
    omega
  | case2 => exact Nat.le_refl _

theorem le_accept (expected : Char) (c : Cursor) :
    c.place.byteIdx ≤ (c.accept source expected).2.place.byteIdx := by
  unfold accept
  split
  · exact le_skip source c
  · exact Nat.le_refl _

end Cursor

end LoxLexer
