import LoxLexer.Scan
import LoxLexer.Text.Lines

/-!
# Entries at a prompt

Lines typed at a prompt are collected until they make an entry. After every line the text so far is
scanned again. While a string or a block comment is left open, only a second empty line in a row
ends the entry; otherwise an empty line does, and so does a line that ends in a semicolon when as
many braces and parentheses are closed as opened. Brackets and semicolons inside strings and
comments are no tokens and do not count.

A line that could not be read takes the place of an entry, and the lines collected before it are
lost with it. When the lines run out, what was collected is an entry, finished or not.

* `readEntry` is `next` of `MultilineInput` on the lines that are left. A `Draft` is what it keeps
  from one line to the next (`current_input`, `first_line`, `previous_empty`), and `Draft.push` is
  one round of its loop. `entries` calls it until there is nothing more.
* `Scan.isOpen`, `isBalanced` and `endsWithSemicolon` are the `still_open`, `balanced` and
  `ends_with_semicolon` of `entry_state`. The counters of brackets have 32 bits and wrap.

Results:
* `Draft.push` — one more line: the entry goes on or is finished.
* `readEntry` — the first entry of a sequence of lines and the lines after it.
* `entries` — all entries; `entries_of_readEntry` cuts off the first.

Out of scope: a build in which counters that overflow are a panic. It takes 2^31 brackets.
-/

namespace LoxLexer

namespace Scan

/-- Whether the text ends inside a string or a block comment. -/
def isOpen (s : Scan) : Bool := s.errors.any fun d => d.fault.isUnterminated

/-- How many more tokens there are of one kind than of another, counted in 32 bits. -/
def excess (s : Scan) (opener closer : Kind) : Int32 :=
  s.tokens.foldl
    (fun depth t =>
      if t.kind = opener then depth + 1 else if t.kind = closer then depth - 1 else depth) 0

/-- Whether as many braces and parentheses are closed as opened, in whatever order. -/
def isBalanced (s : Scan) : Bool :=
  s.excess .leftBrace .rightBrace = 0 && s.excess .leftParen .rightParen = 0

/-- Whether the last token of the text is a semicolon. -/
def endsWithSemicolon (s : Scan) : Bool := s.proper.getLast?.any fun t => t.kind = .semicolon

end Scan

/-- The text of an entry that is not finished. -/
structure Draft where
  text : String
  /-- Whether no line has been read. -/
  isFresh : Bool
  /-- Whether the last line that left the text open was empty. -/
  afterBlank : Bool
deriving DecidableEq

/-- What a line does to a draft. -/
inductive Progress where
  | reading (draft : Draft)
  | finished (entry : String)
deriving DecidableEq

namespace Draft

/-- Nothing collected yet. -/
def empty : Draft := ⟨"", true, false⟩

/-- The text with one more line. -/
def textWith (d : Draft) (line : String) : String :=
  (if d.isFresh then d.text else d.text ++ "\n") ++ line

/-- Adds a line. -/
def push (d : Draft) (line : String) : Progress :=
  let text := d.textWith line
  let found := scan text
  if found.isOpen && !(line.isEmpty && d.afterBlank) then
    .reading ⟨text, false, line.isEmpty⟩
  else if line.isEmpty || (found.endsWithSemicolon && found.isBalanced) then
    .finished text
  else
    .reading ⟨text, false, d.afterBlank⟩

end Draft

section
variable {ε : Type}

/-- Reads on from a draft to the end of the entry: the entry, or the line that could not be read,
and the lines after it. There is nothing to read when no line is left and no text was collected. -/
def readEntry (d : Draft) : List (Line ε) → Option (Line ε × List (Line ε))
  | [] => if d.text.isEmpty then none else some (.ok d.text, [])
  | .error e :: rest => some (.error e, rest)
  | .ok line :: rest =>
    match d.push line with
    | .reading d => readEntry d rest
    | .finished entry => some (.ok entry, rest)

theorem length_rest_le_of_readEntry {d : Draft} {input rest : List (Line ε)} {item : Line ε}
    (h : readEntry d input = some (item, rest)) : rest.length ≤ input.length := by
  fun_induction readEntry d input with
  | case1 => simp at h
  | case2 => simp only [Option.some.injEq, Prod.mk.injEq] at h; simp [← h.2]
  | case3 => simp only [Option.some.injEq, Prod.mk.injEq] at h; simp [← h.2]
  | case4 d line rest' d' _ ih => exact Nat.le_trans (ih h) (by simp)
  | case5 => simp only [Option.some.injEq, Prod.mk.injEq] at h; simp [← h.2]

/-- Reading an entry takes at least one line. -/
theorem length_rest_lt_of_readEntry {input rest : List (Line ε)} {item : Line ε}
    (h : readEntry .empty input = some (item, rest)) : rest.length < input.length := by
  match input with
  | [] => simp [readEntry, Draft.empty] at h
  | .error e :: tail =>
    simp only [readEntry, Option.some.injEq, Prod.mk.injEq] at h
    simp [← h.2]
  | .ok line :: tail =>
    simp only [readEntry] at h
    split at h
    · exact Nat.lt_succ_of_le (length_rest_le_of_readEntry h)
    · simp only [Option.some.injEq, Prod.mk.injEq] at h
      simp [← h.2]

/-- All entries of a sequence of lines, each begun afresh after the one before it. -/
def entries (input : List (Line ε)) : List (Line ε) :=
  match _h : readEntry .empty input with
  | none => []
  | some (item, rest) => item :: entries rest
termination_by input.length
decreasing_by exact length_rest_lt_of_readEntry _h

theorem entries_of_readEntry {input rest : List (Line ε)} {item : Line ε}
    (h : readEntry .empty input = some (item, rest)) : entries input = item :: entries rest := by
  rw [entries]
  split
  · next hn => rw [h] at hn; simp at hn
  · next hs =>
    rw [h] at hs
    obtain ⟨rfl, rfl⟩ := Prod.mk.inj (Option.some.inj hs)
    rfl

theorem entries_of_readEntry_eq_none {input : List (Line ε)}
    (h : readEntry .empty input = none) : entries input = [] := by
  rw [entries]
  split
  · rfl
  · next hs => rw [h] at hs; simp at hs

@[simp] theorem entries_nil : entries ([] : List (Line ε)) = [] :=
  entries_of_readEntry_eq_none (by simp [readEntry, Draft.empty])

end

end LoxLexer
