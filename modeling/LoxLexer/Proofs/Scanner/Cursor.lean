import Mathlib.Data.String.Basic
import LoxLexer.Scanner.Cursor
import LoxLexer.Segment.Located

/-!
# Reading through a cursor

A cursor counts bytes and lines; a text is a list of characters. `Cursor.within before lexeme` is
the cursor that has read `before` and then `lexeme`: its places are the byte lengths of the two, its
lines one more than the line feeds in them. Every operation takes such a cursor to such a cursor,
so a cursor never stands inside a character and its lines never go wrong.

## Results

* `peek_within`, `peekSecond_within`, `lexeme_within`: looking ahead and cutting out the lexeme see
  the characters of the text.
* `read_within`: a run reads `Run.split` of what is left, and the lines stay right.
* `split_blockComment`: the inside of a block comment ends at the first closer.
-/

namespace LoxLexer

open String (utf8Len)

/-! ## Line feeds -/

@[simp] theorem lineFeeds_nil : lineFeeds [] = 0 := rfl

@[simp] theorem lineFeeds_append (s t : List Char) :
    lineFeeds (s ++ t) = lineFeeds s + lineFeeds t := List.count_append

theorem lineFeeds_cons (c : Char) (t : List Char) :
    lineFeeds (c :: t) = (if c = '\n' then 1 else 0) + lineFeeds t := by
  unfold lineFeeds
  rw [List.count_cons, Nat.add_comm]
  simp

theorem lineFeeds_singleton_of_ne {c : Char} (h : c ≠ '\n') : lineFeeds [c] = 0 := by
  rw [lineFeeds_cons, if_neg h]
  rfl

/-! ## Runs as stretches of text -/

namespace Run

/-- What a run takes up of a text, and what it leaves. -/
def split (run : Run) : List Char → List Char × List Char
  | [] => ([], [])
  | a :: rest =>
    if run.goesOn (some a) rest.head? then (a :: (split run rest).1, (split run rest).2)
    else ([], a :: rest)

variable {run : Run} {text : List Char}

theorem split_cons_of_goesOn {a : Char} (h : run.goesOn (some a) text.head? = true) :
    run.split (a :: text) = (a :: (run.split text).1, (run.split text).2) := by
  rw [split, if_pos h]

theorem split_cons_of_not_goesOn {a : Char} (h : ¬ run.goesOn (some a) text.head? = true) :
    run.split (a :: text) = ([], a :: text) := by
  rw [split, if_neg h]

theorem split_append (run : Run) (text : List Char) :
    (run.split text).1 ++ (run.split text).2 = text := by
  induction text with
  | nil => rfl
  | cons a rest ih =>
    by_cases h : run.goesOn (some a) rest.head? = true
    · rw [split_cons_of_goesOn h, List.cons_append, ih]
    · rw [split_cons_of_not_goesOn h]
      rfl

/-- A run that looks at one character only takes up the longest stretch of such characters. -/
theorem split_eq_takeWhile {p : Char → Bool}
    (hp : ∀ a second, run.goesOn (some a) second = p a) (text : List Char) :
    run.split text = (text.takeWhile p, text.dropWhile p) := by
  induction text with
  | nil => rfl
  | cons a rest ih =>
    by_cases h : p a = true
    · rw [split_cons_of_goesOn (by rw [hp]; exact h), ih]
      simp [h]
    · rw [split_cons_of_not_goesOn (by rw [hp]; exact h)]
      simp [h]

theorem split_string (text : List Char) :
    Run.string.split text = (text.takeWhile (· ≠ '"'), text.dropWhile (· ≠ '"')) :=
  split_eq_takeWhile (fun _ _ => rfl) text

theorem split_digits (text : List Char) :
    Run.digits.split text = (text.takeWhile Char.isDigit, text.dropWhile Char.isDigit) :=
  split_eq_takeWhile (fun _ _ => rfl) text

theorem split_word (text : List Char) :
    Run.word.split text = (text.takeWhile isWordPart, text.dropWhile isWordPart) :=
  split_eq_takeWhile (fun _ _ => rfl) text

theorem split_lineComment (text : List Char) :
    Run.lineComment.split text = (text.takeWhile (· ≠ '\n'), text.dropWhile (· ≠ '\n')) :=
  split_eq_takeWhile (fun _ _ => rfl) text

/-- The inside of a block comment goes on unless the closer is next. -/
theorem goesOn_blockComment {a : Char} {text : List Char} :
    Run.blockComment.goesOn (some a) text.head? = true ↔
      ¬ ∃ after, a :: text = '*' :: '/' :: after := by
  cases text <;> simp [goesOn, imp_iff_not_or]

/-- **The inside of a block comment ends at the first closer**, or with the text. -/
theorem split_blockComment (read text : List Char) :
    (Run.blockComment.split text).2 = [] ∧ closeComment read text = none ∨
      ∃ after, (Run.blockComment.split text).2 = '*' :: '/' :: after ∧
        closeComment read text =
          some (read.reverse ++ (Run.blockComment.split text).1 ++ ['*', '/'], after) := by
  fun_induction closeComment read text with
  | case1 read rest =>
    rw [split_cons_of_not_goesOn (by simp [goesOn])]
    exact Or.inr ⟨rest, rfl, by simp⟩
  | case2 read c rest hopen ih =>
    have hgo : Run.blockComment.goesOn (some c) rest.head? = true := by
      rw [goesOn_blockComment]
      rintro ⟨after, h⟩
      obtain ⟨rfl, rfl⟩ := List.cons.inj h
      exact hopen after rfl rfl
    rw [split_cons_of_goesOn hgo]
    rcases ih with ⟨hnil, hnone⟩ | ⟨after, hafter, hsome⟩
    · exact Or.inl ⟨hnil, hnone⟩
    · exact Or.inr ⟨after, hafter, by rw [hsome]; simp⟩
  | case3 => exact Or.inl ⟨rfl, rfl⟩

end Run

/-! ## A cursor and what it has read -/

namespace Cursor

/-- The cursor that has read `before`, begun a lexeme, and read `lexeme` of it. -/
def within (before lexeme : List Char) : Cursor :=
  ⟨⟨utf8Len before⟩, ⟨utf8Len (before ++ lexeme)⟩,
    1 + lineFeeds (before ++ lexeme), 1 + lineFeeds before⟩

variable {source : String} {before lexeme rest : List Char}

/-- At the byte where `rest` starts stands its first character. -/
theorem charAt?_utf8Len (h : source.toList = before ++ rest) :
    charAt? source ⟨utf8Len before⟩ = rest.head? := by
  have hs : source = String.ofList (before ++ rest) := by rw [← h, String.ofList_toList]
  unfold charAt?
  subst hs
  rw [String.utf8ByteSize_ofList, String.utf8Len_append]
  cases rest with
  | nil => simp
  | cons a rest =>
    have := a.utf8Size_pos
    rw [if_pos (by simp only [String.utf8Len_cons]; omega), String.get_of_valid]
    rfl

theorem peek_within (h : source.toList = before ++ lexeme ++ rest) :
    (within before lexeme).peek source = rest.head? :=
  charAt?_utf8Len h

theorem peekSecond_within {a : Char} (h : source.toList = before ++ lexeme ++ a :: rest) :
    (within before lexeme).peekSecond source = rest.head? := by
  have hs : source = String.ofList (before ++ lexeme ++ a :: rest) := by
    rw [← h, String.ofList_toList]
  have hnext : (within before lexeme).place.next source = ⟨utf8Len (before ++ lexeme ++ [a])⟩ := by
    rw [hs]
    simpa [within, Nat.add_assoc] using String.next_of_valid (before ++ lexeme) a rest
  unfold peekSecond
  rw [hnext]
  exact charAt?_utf8Len (by simpa using h)

theorem atEnd_within (h : source.toList = before ++ lexeme ++ rest) :
    (within before lexeme).atEnd source = rest.isEmpty := by
  have hs : source = String.ofList (before ++ lexeme ++ rest) := by rw [← h, String.ofList_toList]
  unfold atEnd within
  rw [hs, String.utf8ByteSize_ofList]
  cases rest with
  | nil => simp
  | cons a rest =>
    have := a.utf8Size_pos
    simp
    omega

theorem lexeme_within (h : source.toList = before ++ lexeme ++ rest) :
    (within before lexeme).lexeme source = String.ofList lexeme := by
  have hs : source = String.ofList (before ++ lexeme ++ rest) := by rw [← h, String.ofList_toList]
  unfold Cursor.lexeme within
  rw [hs, String.utf8Len_append]
  exact String.extract_of_valid before lexeme rest

/-- Reading a character does not count it as a line. -/
theorem skip_within {a : Char} (h : source.toList = before ++ lexeme ++ a :: rest) :
    (within before lexeme).skip source =
      { within before (lexeme ++ [a]) with line := 1 + lineFeeds (before ++ lexeme) } := by
  rw [skip_of_peek source (peek_within h)]
  simp [within, String.Pos.Raw.ext_iff, Nat.add_assoc]

theorem skip_within_of_ne {a : Char} (h : source.toList = before ++ lexeme ++ a :: rest)
    (ha : a ≠ '\n') : (within before lexeme).skip source = within before (lexeme ++ [a]) := by
  rw [skip_within h]
  simp [within, lineFeeds_singleton_of_ne ha]

theorem accept_within (expected : Char) (hne : expected ≠ '\n')
    (h : source.toList = before ++ lexeme ++ rest) :
    (within before lexeme).accept source expected =
      if rest.head? = some expected then (true, within before (lexeme ++ [expected]))
      else (false, within before lexeme) := by
  unfold accept
  rw [peek_within h]
  by_cases hp : rest.head? = some expected
  · obtain ⟨after, rfl⟩ := List.head?_eq_some_iff.mp hp
    rw [if_pos hp, if_pos hp, skip_within_of_ne h hne]
  · rw [if_neg hp, if_neg hp]

/-- One character of a run: a line feed is counted by the runs that can hold one. -/
theorem step_within {run : Run} {a : Char} (h : source.toList = before ++ lexeme ++ a :: rest)
    (hgo : run.goesOn (some a) rest.head? = true) :
    (within before lexeme).step source run = within before (lexeme ++ [a]) := by
  unfold step
  rw [peek_within h]
  by_cases ha : a = '\n'
  · subst ha
    have hcounts : run.countsLines = true := by
      cases run with
      | string | blockComment => rfl
      | digits | word | lineComment =>
        exact absurd hgo (by simp [Run.goesOn, isWordPart, isWordStart])
    have hpeek : (within before lexeme).newLine.peek source = some '\n' := peek_within h
    rw [if_pos (by simp [hcounts]), skip_of_peek source hpeek]
    simp [within, newLine, String.Pos.Raw.ext_iff, lineFeeds_cons, Nat.add_assoc]
  · rw [if_neg (by simp [ha]), skip_within_of_ne h ha]

/-- **A run reads what `Run.split` takes up**, and the lines stay right. -/
theorem read_within (run : Run) (h : source.toList = before ++ lexeme ++ rest) :
    (within before lexeme).read source run = within before (lexeme ++ (run.split rest).1) := by
  induction rest generalizing lexeme with
  | nil =>
    rw [read, if_neg (by rw [peek_within h]; simp [Run.goesOn])]
    simp [Run.split]
  | cons a rest ih =>
    rw [read, peek_within h, peekSecond_within h]
    by_cases hgo : run.goesOn (some a) rest.head? = true
    · rw [List.head?_cons, if_pos hgo, step_within h hgo, ih (by simpa using h),
        Run.split_cons_of_goesOn hgo]
      simp
    · rw [List.head?_cons, if_neg hgo, Run.split_cons_of_not_goesOn hgo]
      simp

/-- What is left of the text behind a run. -/
theorem toList_behind_run (run : Run) (h : source.toList = before ++ lexeme ++ rest) :
    source.toList = before ++ (lexeme ++ (run.split rest).1) ++ (run.split rest).2 := by
  rw [h, List.append_assoc, List.append_assoc, List.append_assoc, Run.split_append]

end Cursor

end LoxLexer
