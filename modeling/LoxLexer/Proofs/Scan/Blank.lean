import Mathlib.Data.List.Forall2
import LoxLexer.Proofs.Scan.Append

/-!
# White space

White space comes to nothing and stops every token, so a text may have white space in place of
whatever is no token: comments, stray characters, and the string or comment that its end cuts off.
As long as the line feeds stay, the tokens are the same on the same lines.

## Results

* `segments_blanks_append`, `locate_blanks`: white space is segments that come to nothing.
* `segments_blanked`: the segments of a text with spaces in place of all that is no token.
* `scan_blanked`: the tokens of that text.
-/

namespace LoxLexer

/-! ## Runs of white space -/

/-- A character of white space as a segment. -/
def blankSegment (c : Char) : Segment := ⟨.trivia, [c]⟩

section
variable {run : List Char}

theorem segments_blanks_append (h : ∀ c ∈ run, c ∈ blanks) (rest : List Char) :
    segments (run ++ rest) = run.map blankSegment ++ segments rest := by
  induction run with
  | nil => rfl
  | cons c run ih =>
    have hc := h c List.mem_cons_self
    have hopen : Opening.of c = .blank ∨ Opening.of c = .lineFeed := by
      simp only [blanks, List.mem_cons, List.not_mem_nil, or_false] at hc
      rcases hc with rfl | rfl | rfl | rfl <;> decide
    rw [List.cons_append, segments_cons, cut_blank hopen,
      ih fun a ha => h a (List.mem_cons_of_mem c ha)]
    rfl

theorem flatMap_text_blanks : (run.map blankSegment).flatMap Segment.text = run := by
  rw [List.flatMap_map]
  exact List.flatMap_singleton' run

/-- White space is neither a token nor wrong. -/
theorem locate_blanks (line : Nat) :
    (locate line (run.map blankSegment)).filterMap Located.token? = [] ∧
      (locate line (run.map blankSegment)).filterMap Located.diagnostic? = [] := by
  induction run generalizing line with
  | nil => exact ⟨rfl, rfl⟩
  | cons c run ih =>
    rw [List.map_cons, locate_cons]
    exact ih _

end

/-! ## Spaces in place of what is no token -/

/-- What stands in place of a character that is in no token. -/
def toBlank (c : Char) : Char := if c = '\n' then '\n' else ' '

theorem toBlank_mem_blanks (c : Char) : toBlank c ∈ blanks := by
  unfold toBlank
  split <;> decide

theorem lineFeeds_map_toBlank (text : List Char) :
    lineFeeds (text.map toBlank) = lineFeeds text := by
  induction text with
  | nil => rfl
  | cons c text ih =>
    rw [List.map_cons, lineFeeds_cons, lineFeeds_cons, ih]
    by_cases hc : c = '\n' <;> simp [toBlank, hc]

namespace Segment

/-- The text of a segment with spaces in place of all that is no token; line feeds stay. -/
def blanked (s : Segment) : List Char :=
  match s.piece with
  | .token _ => s.text
  | _ => s.text.map toBlank

/-- A token as it is, and of everything else its white space. -/
def blankedSegments (s : Segment) : List Segment :=
  match s.piece with
  | .token _ => [s]
  | _ => (s.text.map toBlank).map blankSegment

end Segment

/-- A text in which spaces have taken the place of some characters. -/
def Faded : List Char → List Char → Prop := List.Forall₂ fun a b => b = a ∨ b = ' '

theorem faded_blanked (division : List Segment) :
    Faded (division.flatMap Segment.text) (division.flatMap Segment.blanked) := by
  induction division with
  | nil => exact .nil
  | cons s division ih =>
    rw [List.flatMap_cons, List.flatMap_cons]
    refine List.rel_append ?_ ih
    unfold Segment.blanked
    split
    · exact List.forall₂_same.mpr fun a _ => Or.inl rfl
    · rw [List.forall₂_map_right_iff]
      refine List.forall₂_same.mpr fun a _ => ?_
      by_cases ha : a = '\n' <;> simp [toBlank, ha]

/-- A token stops in front of spaces, so it stops also where the text behind it has faded. -/
theorem stopsBefore_of_faded {kind : Kind} {lexeme after faded : List Char}
    (h : Faded after faded) (hstop : (⟨.token kind, lexeme⟩ : Segment).StopsBefore after) :
    (⟨.token kind, lexeme⟩ : Segment).StopsBefore faded := by
  cases h with
  | nil => exact readsOn_none
  | @cons a b after faded hab hrest =>
    rcases hab with rfl | rfl
    · cases hrest with
      | nil => exact hstop
      | @cons c d after faded hcd _ =>
        rcases hcd with rfl | rfl
        · exact hstop
        · exact readsOn_of_not_isDigit rfl hstop
    · exact Kind.readsOn_blank (by decide) kind lexeme faded.head?

/-- **The segments of a text with spaces** in place of all that is no token: its tokens, and white
space. -/
theorem segments_blanked (text : List Char) :
    segments ((segments text).flatMap Segment.blanked) =
      (segments text).flatMap Segment.blankedSegments := by
  induction text using segments_induction with
  | nil => rw [segments_nil, List.flatMap_nil, segments_nil, List.flatMap_nil]
  | cons c text ih =>
    have hne := text_cut_ne_nil c text
    have hbelongs := belongs_cut c text
    have hstop := stopsBefore_cut c text
    have hfaded := faded_blanked (segments (cut c text).2)
    rw [flatMap_text_segments] at hfaded
    rw [segments_cons, List.flatMap_cons, List.flatMap_cons, ← ih]
    generalize (cut c text).1 = s at hne hbelongs hstop
    obtain ⟨piece, lexeme⟩ := s
    cases piece with
    | token kind => exact segments_text_append hne hbelongs (stopsBefore_of_faded hfaded hstop)
    | trivia | malformed =>
      have hrun : ∀ a ∈ lexeme.map toBlank, a ∈ blanks := by
        intro a ha
        obtain ⟨b, -, rfl⟩ := List.mem_map.mp ha
        exact toBlank_mem_blanks b
      exact segments_blanks_append hrun _

theorem lineFeeds_blanked (s : Segment) : lineFeeds s.blanked = lineFeeds s.text := by
  unfold Segment.blanked
  split
  · rfl
  · exact lineFeeds_map_toBlank s.text

theorem lineFeeds_flatMap_blanked (division : List Segment) :
    lineFeeds (division.flatMap Segment.blanked) = lineFeeds (division.flatMap Segment.text) := by
  induction division with
  | nil => rfl
  | cons s division ih =>
    rw [List.flatMap_cons, List.flatMap_cons, lineFeeds_append, lineFeeds_append, ih,
      lineFeeds_blanked]

theorem flatMap_text_blankedSegments (s : Segment) :
    s.blankedSegments.flatMap Segment.text = s.blanked := by
  unfold Segment.blankedSegments Segment.blanked
  split
  · exact List.flatMap_singleton _ _
  · exact flatMap_text_blanks

/-- The tokens stay, on their lines, and nothing is wrong. -/
theorem locate_blankedSegments (division : List Segment) (line : Nat) :
    (locate line (division.flatMap Segment.blankedSegments)).filterMap Located.token? =
        (locate line division).filterMap Located.token? ∧
      (locate line (division.flatMap Segment.blankedSegments)).filterMap Located.diagnostic? =
        [] := by
  induction division generalizing line with
  | nil => exact ⟨rfl, rfl⟩
  | cons s division ih =>
    obtain ⟨htokens, hnone⟩ := ih (line + lineFeeds s.text)
    rw [List.flatMap_cons, locate_append, flatMap_text_blankedSegments, lineFeeds_blanked,
      List.filterMap_append, List.filterMap_append, htokens, hnone, locate_cons]
    obtain ⟨piece, lexeme⟩ := s
    cases piece with
    | token kind => exact ⟨rfl, rfl⟩
    | trivia | malformed =>
      obtain ⟨htoken, hfault⟩ := @locate_blanks (lexeme.map toBlank) line
      exact ⟨congrArg (· ++ _) htoken, congrArg (· ++ _) hfault⟩

/-- **All that is no token is as good as blank.** With a space for every character that is in no
token, line feeds left where they are, a text has the same tokens, the end of input with them, and
nothing wrong in it. -/
theorem scan_blanked {source : String} {division : List Segment}
    (h : Division source.toList division) :
    (scan (String.ofList (division.flatMap Segment.blanked))).tokens = (scan source).tokens ∧
      (scan (String.ofList (division.flatMap Segment.blanked))).errors = [] := by
  obtain rfl := division_iff.mp h
  obtain ⟨htokens, hnone⟩ := locate_blankedSegments (segments source.toList) 1
  have hlines := lineFeeds_flatMap_blanked (segments source.toList)
  rw [flatMap_text_segments] at hlines
  constructor
  · rw [tokens_scan, tokens_scan, String.toList_ofList, hlines]
    unfold located
    rw [segments_blanked, htokens]
  · rw [errors_scan, String.toList_ofList]
    unfold located
    rw [segments_blanked, hnone]

/-- Of a stray character, a comment and a string that is never closed only the white space is
left. -/
theorem scan_blanked_of_open_string :
    Division "é1//\n.\"\n".toList
        [⟨.malformed (.unexpectedCharacter 'é'), ['é']⟩, ⟨.token .number, ['1']⟩,
          ⟨.trivia, ['/', '/']⟩, ⟨.trivia, ['\n']⟩, ⟨.token .dot, ['.']⟩,
          ⟨.malformed .unterminatedString, ['"', '\n']⟩] ∧
      (scan " 1  \n. \n").tokens = (scan "é1//\n.\"\n").tokens ∧
      (scan " 1  \n. \n").errors = [] := by
  have hdivision : Division "é1//\n.\"\n".toList
      [⟨.malformed (.unexpectedCharacter 'é'), ['é']⟩, ⟨.token .number, ['1']⟩,
        ⟨.trivia, ['/', '/']⟩, ⟨.trivia, ['\n']⟩, ⟨.token .dot, ['.']⟩,
        ⟨.malformed .unterminatedString, ['"', '\n']⟩] :=
    division_iff.mpr (by decide +kernel)
  exact ⟨hdivision, scan_blanked hdivision⟩

end LoxLexer
