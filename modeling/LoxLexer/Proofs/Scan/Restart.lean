import LoxLexer.Proofs.Scan.Append
import LoxLexer.Proofs.Scanner.Reached

/-!
# Scanning afresh

Wherever a run starts a lexeme, the text may be cut in two: what is in front is scanned as if the
text ended there, and what follows as if it started there, whatever was found wrong before. Only the
lines are counted through.

## Results

* `textUpTo`, `textFrom`: the two parts of a text at a place.
* `scan_restarts`: the scan of the text is made up of the scans of the parts.
-/

namespace LoxLexer

open String (utf8Len)

/-- The text in front of a place. -/
def textUpTo (source : String) (p : String.Pos.Raw) : String := String.Pos.Raw.extract source 0 p

/-- The text from a place on. -/
def textFrom (source : String) (p : String.Pos.Raw) : String :=
  String.Pos.Raw.extract source p source.rawEndPos

section
variable {source : String} {front rest : List Char}

theorem textUpTo_utf8Len (h : source.toList = front ++ rest) :
    textUpTo source ⟨utf8Len front⟩ = String.ofList front := by
  have hsource : source = String.ofList ([] ++ front ++ rest) := by
    rw [List.nil_append, ← h, String.ofList_toList]
  have hextract := String.extract_of_valid [] front rest
  rw [← hsource, String.utf8Len_nil, Nat.zero_add] at hextract
  exact hextract

theorem textFrom_utf8Len (h : source.toList = front ++ rest) :
    textFrom source ⟨utf8Len front⟩ = String.ofList rest := by
  have hsource : source = String.ofList (front ++ rest ++ []) := by
    rw [List.append_nil, ← h, String.ofList_toList]
  have hend : source.rawEndPos = ⟨utf8Len front + utf8Len rest⟩ := by
    rw [hsource, String.rawEndPos_ofList, List.append_nil, String.utf8Len_append]
  have hextract := String.extract_of_valid front rest []
  rw [← hsource] at hextract
  rw [textFrom, hend]
  exact hextract

end

/-- The end of a text is behind all its segments, so a place to cut is between two of them. -/
theorem exists_split_of_startsLexeme {source : String} {p : String.Pos.Raw}
    (h : Scanner.StartsLexeme source p ∨ p = source.rawEndPos) :
    ∃ front back, segments source.toList = front ++ back ∧
      p = ⟨utf8Len (front.flatMap Segment.text)⟩ := by
  rcases h with hstart | rfl
  · obtain ⟨front, segment, back, hsplit, hp⟩ := Scanner.startsLexeme_iff.mp hstart
    exact ⟨front, segment :: back, hsplit, hp⟩
  · refine ⟨segments source.toList, [], (List.append_nil _).symm, ?_⟩
    rw [flatMap_text_segments, ← String.rawEndPos_ofList, String.ofList_toList]

/-- **Scanning starts afresh with every lexeme.** A text is cut where a run starts a lexeme, or at
its end. Its tokens are those of the first part and then all of the second, the end of input with
them, and its diagnostics are those of both parts; the lines of the second part are moved on by the
line feeds of the first. -/
theorem scan_restarts {source : String} {p : String.Pos.Raw}
    (h : Scanner.StartsLexeme source p ∨ p = source.rawEndPos) :
    textUpTo source p ++ textFrom source p = source ∧
      (scan source).tokens = (scan (textUpTo source p)).proper ++
        (scan (textFrom source p)).tokens.map
          (Token.shift (lineFeeds (textUpTo source p).toList)) ∧
      (scan source).errors = (scan (textUpTo source p)).errors ++
        (scan (textFrom source p)).errors.map
          (Diagnostic.shift (lineFeeds (textUpTo source p).toList)) := by
  obtain ⟨front, back, hsplit, rfl⟩ := exists_split_of_startsLexeme h
  have hsource := text_of_split hsplit
  rw [textUpTo_utf8Len hsource, textFrom_utf8Len hsource]
  have htext : String.ofList (front.flatMap Segment.text) ++
      String.ofList (back.flatMap Segment.text) = source := by
    rw [← String.ofList_append, ← hsource, String.ofList_toList]
  have hparts : segments ((String.ofList (front.flatMap Segment.text)).toList ++
        (String.ofList (back.flatMap Segment.text)).toList) =
      segments (String.ofList (front.flatMap Segment.text)).toList ++
        segments (String.ofList (back.flatMap Segment.text)).toList := by
    simp only [String.toList_ofList]
    rw [← hsource, hsplit, segments_front hsplit, segments_of_split hsplit]
  obtain ⟨hproper, herrors⟩ := scan_append hparts
  rw [htext] at hproper herrors
  refine ⟨htext, ?_, herrors⟩
  rw [tokens_eq_proper_append source, tokens_eq_proper_append (String.ofList (back.flatMap _)),
    hproper, hsource, lineFeeds_append, List.map_append, List.append_assoc, ← Nat.add_assoc]
  simp [Token.shift, Token.endOfInput, Nat.add_right_comm]

/-- A cut between a number and the point behind it, with a stray character and a line feed in
front. -/
theorem scan_restarts_behind_number :
    Scanner.StartsLexeme "é\n1.;" ⟨4⟩ ∧
      textUpTo "é\n1.;" ⟨4⟩ = "é\n1" ∧ textFrom "é\n1.;" ⟨4⟩ = ".;" ∧
      (scan "é\n1.;").tokens =
        (scan "é\n1").proper ++ (scan ".;").tokens.map (Token.shift 1) ∧
      (scan "é\n1.;").errors =
        (scan "é\n1").errors ++ (scan ".;").errors.map (Diagnostic.shift 1) := by
  have hstart : Scanner.StartsLexeme "é\n1.;" ⟨4⟩ :=
    Scanner.startsLexeme_iff.mpr
      ⟨[⟨.malformed (.unexpectedCharacter 'é'), ['é']⟩, ⟨.trivia, ['\n']⟩, ⟨.token .number, ['1']⟩],
        ⟨.token .dot, ['.']⟩, [⟨.token .semicolon, [';']⟩], by decide +kernel, by decide +kernel⟩
  have hfront : textUpTo "é\n1.;" ⟨4⟩ = "é\n1" := by decide +kernel
  have hrest : textFrom "é\n1.;" ⟨4⟩ = ".;" := by decide +kernel
  have hscan := (scan_restarts (Or.inl hstart)).2
  rw [hfront, hrest] at hscan
  exact ⟨hstart, hfront, hrest, hscan⟩

end LoxLexer
