import Mathlib.Data.List.Induction
import Mathlib.Logic.Relation
import LoxLexer.Proofs.Segment.Lookahead

/-!
# The scanners of a run

A run reads one lexeme after the other; between two lexemes it stands between two segments of its
text, and so it comes by all of them.

## Results

* `Scanner.Reached`: the scanners that a run comes to; `run_of_reached`: from each of them the run
  goes on to the same end.
* `startsLexeme_iff`: a run starts a lexeme where a segment starts, and nowhere else; `faultAt_iff`:
  what it finds wrong there.
-/

namespace LoxLexer

open String (utf8Len)

namespace Scanner

/-- One lexeme of a run: there is text left, and the scanner reads on. -/
def Step (source : String) (s t : Scanner) : Prop :=
  s.cursor.atEnd source = false ∧ t = (s.next source).2

/-- The scanners that a run over a text comes to, in front of every lexeme and at the end. -/
def Reached (source : String) : Scanner → Prop := Relation.ReflTransGen (Step source) .new

/-- Where a run over a text starts a lexeme. -/
def StartsLexeme (source : String) (p : String.Pos.Raw) : Prop :=
  ∃ s, Reached source s ∧ s.cursor.atEnd source = false ∧ s.cursor.place = p

/-- Where a run over a text starts a lexeme, and what it finds wrong with it. -/
def FaultAt (source : String) (p : String.Pos.Raw) (d : Diagnostic) : Prop :=
  ∃ s, Reached source s ∧ s.cursor.atEnd source = false ∧ s.cursor.place = p ∧
    (s.next source).1 = .error d

variable {source : String} {s t : Scanner}

/-- A run goes on from every scanner it comes to. -/
theorem run_of_reached {σ : Type} (report : σ → Diagnostic → σ) (state : σ)
    (h : Reached source s) :
    ∃ told, new.run source report state = s.run source report told := by
  induction h with
  | refl => exact ⟨state, rfl⟩
  | @tail s t _ hstep ih =>
    obtain ⟨told, hrun⟩ := ih
    obtain ⟨hleft, rfl⟩ := hstep
    refine ⟨tell report told (s.next source).1, ?_⟩
    rw [hrun, run, if_neg (by rw [hleft]; decide)]

section
variable {front back : List Segment} {segment : Segment}

/-- In front of a segment there is text left, and reading on takes up the segment. -/
theorem next_of_split (h : s.ReadUpTo (front.flatMap Segment.text))
    (hsplit : segments source.toList = front ++ segment :: back) :
    s.cursor.atEnd source = false ∧
      (s.next source).2.ReadUpTo ((front ++ [segment]).flatMap Segment.text) := by
  have hsource := text_of_split hsplit
  obtain ⟨c, rest, htext, hcut⟩ := exists_cut_of_split hsplit
  rw [htext] at hsource
  rw [atEnd_of_readUpTo h hsource, next_of_readUpTo h hsource, hcut, List.flatMap_append,
    List.flatMap_singleton]
  exact ⟨rfl, readUpTo_within _ _ _⟩

/-- A run comes to stand between two segments only. -/
theorem exists_split_of_reached (h : Reached source s) :
    ∃ front back, segments source.toList = front ++ back ∧
      s.ReadUpTo (front.flatMap Segment.text) := by
  induction h with
  | refl => exact ⟨[], segments source.toList, rfl, readUpTo_new⟩
  | @tail s t _ hstep ih =>
    obtain ⟨front, back, hsplit, hread⟩ := ih
    obtain ⟨hleft, rfl⟩ := hstep
    cases back with
    | nil =>
      rw [atEnd_of_readUpTo hread (text_of_split hsplit)] at hleft
      cases hleft
    | cons segment back =>
      exact ⟨front ++ [segment], back, by simpa using hsplit, (next_of_split hread hsplit).2⟩

/-- With text left, a run stands in front of a segment. -/
theorem exists_segment_of_reached (h : Reached source s) (hleft : s.cursor.atEnd source = false) :
    ∃ front segment back, segments source.toList = front ++ segment :: back ∧
      s.ReadUpTo (front.flatMap Segment.text) := by
  obtain ⟨front, back, hsplit, hread⟩ := exists_split_of_reached h
  cases back with
  | nil =>
    rw [atEnd_of_readUpTo hread (text_of_split hsplit)] at hleft
    cases hleft
  | cons segment back => exact ⟨front, segment, back, hsplit, hread⟩

/-- A run comes to stand between any two segments. -/
theorem exists_reached_of_split (hsplit : segments source.toList = front ++ back) :
    ∃ s, Reached source s ∧ s.ReadUpTo (front.flatMap Segment.text) := by
  induction front using List.reverseRecOn generalizing back with
  | nil => exact ⟨new, .refl, readUpTo_new⟩
  | append_singleton front segment ih =>
    rw [List.append_assoc, List.singleton_append] at hsplit
    obtain ⟨s, hreached, hread⟩ := ih hsplit
    obtain ⟨hleft, hnext⟩ := next_of_split hread hsplit
    exact ⟨_, .tail hreached ⟨hleft, rfl⟩, hnext⟩

end

/-- **A run starts a lexeme where a segment starts.** -/
theorem startsLexeme_iff {p : String.Pos.Raw} :
    StartsLexeme source p ↔
      ∃ front segment back, segments source.toList = front ++ segment :: back ∧
        p = ⟨utf8Len (front.flatMap Segment.text)⟩ := by
  constructor
  · rintro ⟨s, hreached, hleft, rfl⟩
    obtain ⟨front, segment, back, hsplit, hread⟩ := exists_segment_of_reached hreached hleft
    exact ⟨front, segment, back, hsplit, hread.place⟩
  · rintro ⟨front, segment, back, hsplit, rfl⟩
    obtain ⟨s, hreached, hread⟩ := exists_reached_of_split hsplit
    exact ⟨s, hreached, (next_of_split hread hsplit).1, hread.place⟩

/-- What reading on from in front of a segment finds wrong is what is wrong with the segment. -/
theorem next_eq_error_iff {front back : List Segment} {segment : Segment} {d : Diagnostic}
    (h : s.ReadUpTo (front.flatMap Segment.text))
    (hsplit : segments source.toList = front ++ segment :: back) :
    (s.next source).1 = .error d ↔
      (⟨segment, 1 + lineFeeds (front.flatMap Segment.text)⟩ : Located).diagnostic? = some d := by
  have hsource := text_of_split hsplit
  obtain ⟨c, rest, htext, hcut⟩ := exists_cut_of_split hsplit
  rw [htext] at hsource
  rw [next_of_readUpTo h hsource, hcut]
  dsimp only
  generalize (⟨segment, _⟩ : Located).diagnostic? = found
  cases found <;> simp

/-- **A run finds wrong what is wrong with a segment**, where the segment starts. -/
theorem faultAt_iff {p : String.Pos.Raw} {d : Diagnostic} :
    FaultAt source p d ↔
      ∃ front segment back, segments source.toList = front ++ segment :: back ∧
        p = ⟨utf8Len (front.flatMap Segment.text)⟩ ∧
        (⟨segment, 1 + lineFeeds (front.flatMap Segment.text)⟩ : Located).diagnostic? =
          some d := by
  constructor
  · rintro ⟨s, hreached, hleft, rfl, hfault⟩
    obtain ⟨front, segment, back, hsplit, hread⟩ := exists_segment_of_reached hreached hleft
    exact ⟨front, segment, back, hsplit, hread.place, (next_eq_error_iff hread hsplit).mp hfault⟩
  · rintro ⟨front, segment, back, hsplit, rfl, hfault⟩
    obtain ⟨s, hreached, hread⟩ := exists_reached_of_split hsplit
    exact ⟨s, hreached, (next_of_split hread hsplit).1, hread.place,
      (next_eq_error_iff hread hsplit).mpr hfault⟩

end Scanner

end LoxLexer
