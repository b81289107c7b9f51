import LoxLexer.Diagnostic
import LoxLexer.Segment.Opening

/-!
# Segments of a source text

A source text is a sequence of segments, each a token, trivia (a blank character or a comment) or
malformed. `cut` takes the first segment off a text that is not empty, `segments` goes on to its
end. A segment is always the longest that can be read at its place; a malformed segment ends either
after one stray character or with the text.

Results:
* `text_cut` — the segment and what follows it are the text, nothing lost or changed.
* `length_cut_lt` — what follows is shorter than the text, so the division ends.
* `segments_cons` — `segments` cuts one segment and divides what follows.
* `flatMap_text_segments` — the segments, one after the other, are the text.
-/

namespace LoxLexer

/-- What a segment is. -/
inductive Piece where
  | token (kind : Kind)
  /-- A blank character or a comment. -/
  | trivia
  | malformed (fault : Fault)
deriving DecidableEq

/-- A stretch of source text and what it is. -/
structure Segment where
  piece : Piece
  text : List Char
deriving DecidableEq

/-! ## Reading on from an opening -/

/-- What follows `/*` up to and including the first `*/`, and the text after it. The closer may not
share its star with the opener, and comments do not nest. -/
def closeComment (read : List Char) : List Char → Option (List Char × List Char)
  | '*' :: '/' :: rest => some (read.reverse ++ ['*', '/'], rest)
  | c :: rest => closeComment (c :: read) rest
  | [] => none

/-- The rest of a number after its first digit: digits, and a point with digits if at least one
follows the point. -/
def restOfNumber (text : List Char) : List Char × List Char :=
  let whole := text.takeWhile Char.isDigit
  match text.dropWhile Char.isDigit with
  | '.' :: d :: rest =>
    if d.isDigit then
      (whole ++ '.' :: d :: rest.takeWhile Char.isDigit, rest.dropWhile Char.isDigit)
    else (whole, '.' :: d :: rest)
  | rest => (whole, rest)

/-- The first segment of a text that starts with `c`, and what follows it. -/
def cut (c : Char) (text : List Char) : Segment × List Char :=
  match Opening.of c with
  | .mark kind => (⟨.token kind, [c]⟩, text)
  | .withEqual alone followed =>
    match text with
    | '=' :: rest => (⟨.token followed, [c, '=']⟩, rest)
    | _ => (⟨.token alone, [c]⟩, text)
  | .slash =>
    match text with
    | '/' :: rest =>
      (⟨.trivia, c :: '/' :: rest.takeWhile (· ≠ '\n')⟩, rest.dropWhile (· ≠ '\n'))
    | '*' :: rest =>
      match closeComment [] rest with
      | some (comment, after) => (⟨.trivia, c :: '*' :: comment⟩, after)
      | none => (⟨.malformed .unterminatedBlockComment, c :: text⟩, [])
    | _ => (⟨.token .slash, [c]⟩, text)
  | .blank | .lineFeed => (⟨.trivia, [c]⟩, text)
  | .quote =>
    match text.dropWhile (· ≠ '"') with
    | close :: after => (⟨.token .string, c :: text.takeWhile (· ≠ '"') ++ [close]⟩, after)
    | [] => (⟨.malformed .unterminatedString, c :: text⟩, [])
  | .digit => (⟨.token .number, c :: (restOfNumber text).1⟩, (restOfNumber text).2)
  | .wordStart =>
    let word := c :: text.takeWhile isWordPart
    (⟨.token (.ofWord word), word⟩, text.dropWhile isWordPart)
  | .stray => (⟨.malformed (.unexpectedCharacter c), [c]⟩, text)

/-- A point with a digit behind it belongs to the number, with all digits that follow. -/
theorem restOfNumber_of_fraction {text rest : List Char} {d : Char}
    (h : text.dropWhile Char.isDigit = '.' :: d :: rest) (hd : d.isDigit = true) :
    restOfNumber text =
      (text.takeWhile Char.isDigit ++ '.' :: d :: rest.takeWhile Char.isDigit,
        rest.dropWhile Char.isDigit) := by
  simp [restOfNumber, h, hd]

/-- Any other point does not. -/
theorem restOfNumber_of_whole {text : List Char}
    (h : ¬ ∃ d rest, text.dropWhile Char.isDigit = '.' :: d :: rest ∧ d.isDigit = true) :
    restOfNumber text = (text.takeWhile Char.isDigit, text.dropWhile Char.isDigit) := by
  unfold restOfNumber
  dsimp only
  split
  · next d rest hrest =>
    by_cases hd : d.isDigit = true
    · exact absurd ⟨d, rest, hrest, hd⟩ h
    · rw [if_neg hd, hrest]
  · rfl

/-! ## What each opening comes to -/

section
variable {c : Char} {text rest : List Char}

theorem cut_mark {kind : Kind} (h : Opening.of c = .mark kind) :
    cut c text = (⟨.token kind, [c]⟩, text) := by
  unfold cut
  rw [h]

theorem cut_followed {alone followed : Kind} (h : Opening.of c = .withEqual alone followed) :
    cut c ('=' :: rest) = (⟨.token followed, [c, '=']⟩, rest) := by
  unfold cut
  rw [h]
  rfl

theorem cut_alone {alone followed : Kind} (h : Opening.of c = .withEqual alone followed)
    (hne : text.head? ≠ some '=') : cut c text = (⟨.token alone, [c]⟩, text) := by
  unfold cut
  rw [h]
  dsimp only
  split
  · simp at hne
  · rfl

theorem cut_lineComment :
    cut '/' ('/' :: text) =
      (⟨.trivia, '/' :: '/' :: text.takeWhile (· ≠ '\n')⟩, text.dropWhile (· ≠ '\n')) := rfl

theorem cut_star :
    cut '/' ('*' :: text) =
      match closeComment [] text with
      | some (comment, after) => (⟨.trivia, '/' :: '*' :: comment⟩, after)
      | none => (⟨.malformed .unterminatedBlockComment, '/' :: '*' :: text⟩, []) := rfl

theorem cut_blockComment {comment after : List Char}
    (h : closeComment [] text = some (comment, after)) :
    cut '/' ('*' :: text) = (⟨.trivia, '/' :: '*' :: comment⟩, after) := by
  rw [cut_star, h]

theorem cut_openComment (h : closeComment [] text = none) :
    cut '/' ('*' :: text) =
      (⟨.malformed .unterminatedBlockComment, '/' :: '*' :: text⟩, []) := by
  rw [cut_star, h]

theorem cut_slash (hline : text.head? ≠ some '/') (hblock : text.head? ≠ some '*') :
    cut '/' text = (⟨.token .slash, ['/']⟩, text) := by
  have hopen : Opening.of '/' = .slash := rfl
  unfold cut
  rw [hopen]
  dsimp only
  split
  · simp at hline
  · simp at hblock
  · rfl

theorem cut_blank (h : Opening.of c = .blank ∨ Opening.of c = .lineFeed) :
    cut c text = (⟨.trivia, [c]⟩, text) := by
  unfold cut
  rcases h with h | h
  · rw [h]
  · rw [h]

theorem cut_quote :
    cut '"' text =
      match text.dropWhile (· ≠ '"') with
      | close :: after => (⟨.token .string, '"' :: text.takeWhile (· ≠ '"') ++ [close]⟩, after)
      | [] => (⟨.malformed .unterminatedString, '"' :: text⟩, []) := rfl

theorem cut_string {close : Char} {after : List Char}
    (h : text.dropWhile (· ≠ '"') = close :: after) :
    cut '"' text = (⟨.token .string, '"' :: text.takeWhile (· ≠ '"') ++ [close]⟩, after) := by
  rw [cut_quote, h]

theorem cut_openString (h : text.dropWhile (· ≠ '"') = []) :
    cut '"' text = (⟨.malformed .unterminatedString, '"' :: text⟩, []) := by
  rw [cut_quote, h]

theorem cut_number (h : Opening.of c = .digit) :
    cut c text = (⟨.token .number, c :: (restOfNumber text).1⟩, (restOfNumber text).2) := by
  unfold cut
  rw [h]

theorem cut_word (h : Opening.of c = .wordStart) :
    cut c text =
      (⟨.token (.ofWord (c :: text.takeWhile isWordPart)), c :: text.takeWhile isWordPart⟩,
        text.dropWhile isWordPart) := by
  unfold cut
  rw [h]

theorem cut_stray (h : Opening.of c = .stray) :
    cut c text = (⟨.malformed (.unexpectedCharacter c), [c]⟩, text) := by
  unfold cut
  rw [h]

end

/-! ## Nothing is lost -/

theorem closeComment_append {read text comment after : List Char}
    (h : closeComment read text = some (comment, after)) :
    comment ++ after = read.reverse ++ text := by
  fun_induction closeComment read text with
  | case1 read rest =>
    obtain ⟨rfl, rfl⟩ := Prod.mk.inj (Option.some.inj h)
    simp
  | case2 read c rest _ ih => simpa using ih h
  | case3 => simp at h

theorem restOfNumber_append (text : List Char) :
    (restOfNumber text).1 ++ (restOfNumber text).2 = text := by
  have h := List.takeWhile_append_dropWhile (p := Char.isDigit) (l := text)
  simp only [restOfNumber]
  split
  · next d rest hd =>
    split
    · rw [hd] at h
      conv => rhs; rw [← h]
      simp
    · rw [← hd]; exact h
  · exact h

theorem text_cut (c : Char) (text : List Char) :
    (cut c text).1.text ++ (cut c text).2 = c :: text := by
  simp only [cut]
  split <;> (try split) <;> (try simp)
  · split
    · next h => simpa using closeComment_append h
    · simp
  · next h =>
    have := List.takeWhile_append_dropWhile (p := (· ≠ '"')) (l := text)
    rw [h] at this
    simpa using this
  · exact restOfNumber_append text

theorem text_cut_ne_nil (c : Char) (text : List Char) : (cut c text).1.text ≠ [] := by
  simp only [cut]
  split <;> (try split) <;> (try simp)
  split <;> simp

theorem exists_text_cut (c : Char) (text : List Char) :
    ∃ rest, (cut c text).1.text = c :: rest := by
  obtain ⟨first, rest, hfirst⟩ := List.exists_cons_of_ne_nil (text_cut_ne_nil c text)
  have htext := text_cut c text
  rw [hfirst] at htext
  obtain ⟨rfl, -⟩ := List.cons.inj htext
  exact ⟨rest, hfirst⟩

theorem length_cut_lt (c : Char) (text : List Char) :
    (cut c text).2.length < (c :: text).length := by
  have h := congrArg List.length (text_cut c text)
  have := List.length_pos_iff.2 (text_cut_ne_nil c text)
  rw [List.length_append] at h
  omega

/-! ## The division of a whole text -/

/-- Divides a text, the segments of what comes before it at hand in reverse. -/
def divide (done : List Segment) : List Char → List Segment
  | [] => done.reverse
  | c :: text =>
    let next := cut c text
    divide (next.1 :: done) next.2
termination_by text => text.length
decreasing_by exact length_cut_lt c text

/-- The segments of a text, in order. -/
def segments (text : List Char) : List Segment := divide [] text

theorem divide_append (done before : List Segment) (text : List Char) :
    divide (done ++ before) text = before.reverse ++ divide done text := by
  fun_induction divide done text with
  | case1 done => simp [divide]
  | case2 done c text next ih => rw [divide]; exact ih

@[simp] theorem segments_nil : segments [] = [] := by
  simp [segments, divide]

theorem segments_cons (c : Char) (text : List Char) :
    segments (c :: text) = (cut c text).1 :: segments (cut c text).2 := by
  rw [segments, divide]
  exact divide_append [] [(cut c text).1] (cut c text).2

/-- What holds of the empty text and is carried back over every cut holds of all texts. -/
theorem segments_induction {motive : List Char → Prop} (nil : motive [])
    (cons : ∀ c text, motive (cut c text).2 → motive (c :: text)) (text : List Char) :
    motive text := by
  induction h : text.length using Nat.strongRecOn generalizing text with
  | ind n ih =>
    cases text with
    | nil => exact nil
    | cons c text => exact cons c text (ih _ (h ▸ length_cut_lt c text) _ rfl)

theorem flatMap_text_segments (text : List Char) : (segments text).flatMap Segment.text = text := by
  induction text using segments_induction with
  | nil => simp
  | cons c text ih => rw [segments_cons, List.flatMap_cons, ih, text_cut]

theorem text_ne_nil_of_mem_segments {text : List Char} {s : Segment} (h : s ∈ segments text) :
    s.text ≠ [] := by
  induction text using segments_induction with
  | nil => simp at h
  | cons c text ih =>
    rw [segments_cons] at h
    rcases List.mem_cons.1 h with rfl | h
    · exact text_cut_ne_nil c text
    · exact ih h

end LoxLexer
