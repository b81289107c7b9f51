import LoxLexer.Proofs.Scan.Extension
import LoxLexer.Proofs.Scan.Lines
import LoxLexer.Proofs.Scan.Restart

/-!
# Closing what is open

The end of a text cuts off one lexeme at most, so of all that is found wrong only the last can be a
string or a block comment without its end. With the end appended, that lexeme is a string token or a
comment, nothing is wrong with it, and all in front of it is what it was.

## Results

* `isToken_closed`, `isTrivia_closed`: what a cut-off string or comment is with its end.
* `scan_of_closed`: the scan of a text with the end of its open segment appended.
* `scan_closes`: the same said of the lexemes of a run.
-/

namespace LoxLexer

open String (utf8Len)

/-! ## The open segment with its end -/

/-- A cut-off string, and the string it becomes. -/
theorem isToken_closed {lexeme after : List Char} (h : IsMalformed .unterminatedString lexeme after) :
    ∃ body, lexeme = '"' :: body ∧ IsToken .string (lexeme ++ ['"']) := by
  cases h with
  | @string body hbody => exact ⟨body, rfl, .string hbody⟩

/-- The token of a closed string: its value is what the quotes stand around. -/
theorem token?_closed (body : List Char) (line : Nat) :
    (⟨⟨.token .string, '"' :: body ++ ['"']⟩, line⟩ : Located).token? =
      some ⟨.string, String.ofList ('"' :: body) ++ "\"", some (.string (String.ofList body)),
        line⟩ := by
  have hlexeme : String.ofList ('"' :: body ++ ['"']) = String.ofList ('"' :: body) ++ "\"" :=
    String.ofList_append
  have hvalue : literal? .string ('"' :: body ++ ['"']) = some (.string (String.ofList body)) := by
    simp [literal?]
  simp only [Located.token?, hlexeme, hvalue]

/-- A cut-off comment becomes a comment, also where it ends in a star: that one is no part of the
closer. -/
theorem isTrivia_closed {lexeme after : List Char}
    (h : IsMalformed .unterminatedBlockComment lexeme after) : IsTrivia (lexeme ++ closer) := by
  cases h with
  | blockComment hbody => exact .blockComment (not_closer_infix_concat (by decide) hbody)

/-- **The scan of a text with the end of its open segment appended.** The open segment comes to what
the closed one is, on the same line, and its diagnostic was the last. -/
theorem scan_of_closed {source more : String} {front : List Segment} {s t : Segment} {d : Diagnostic}
    (hsplit : segments source.toList = front ++ [s]) (hopen : s.isOpen = true)
    (hfault : (⟨s, 1 + lineFeeds (front.flatMap Segment.text)⟩ : Located).diagnostic? = some d)
    (ht : t.Belongs []) (htext : t.text = s.text ++ more.toList)
    (hnone : ∀ line, (⟨t, line⟩ : Located).diagnostic? = none)
    (hlines : lineFeeds more.toList = 0) :
    (scan (source ++ more)).tokens =
        (scan source).proper ++
          ((⟨t, 1 + lineFeeds (front.flatMap Segment.text)⟩ : Located).token?.toList ++
            [.endOfInput (1 + lineFeeds source.toList)]) ∧
      (scan source).errors = (scan (source ++ more)).errors ++ [d] := by
  have hclosed := segments_append_of_open hsplit hopen ht htext
  have htoken : (⟨s, 1 + lineFeeds (front.flatMap Segment.text)⟩ : Located).token? = none := by
    unfold Located.token?
    rw [piece_of_diagnostic? hfault]
  rw [tokens_scan, proper_scan, errors_scan, errors_scan, String.toList_append, lineFeeds_append,
    hlines]
  unfold located
  rw [hsplit, hclosed, locate_append, locate_append, locate_cons, locate_cons]
  simp only [List.filterMap_append, List.filterMap_cons_none htoken,
    List.filterMap_cons_none (hnone _), List.filterMap_cons_some hfault, locate_nil,
    List.filterMap_nil, List.append_nil, Nat.add_zero, and_true]
  rw [List.append_assoc, List.filterMap_cons]
  cases (⟨t, 1 + lineFeeds (front.flatMap Segment.text)⟩ : Located).token? <;> rfl

/-! ## What is found wrong in a run -/

/-- All diagnostics but the last one are about stray characters. -/
theorem isUnterminated_of_mem_dropLast {source : String} {d : Diagnostic}
    (h : d ∈ (scan source).errors.dropLast) : d.fault.isUnterminated = false := by
  rcases (scan source).errors.eq_nil_or_concat' with hnil | ⟨faults, last, herrors⟩
  · rw [hnil] at h
    cases h
  · rw [herrors, List.dropLast_concat] at h
    obtain ⟨before, after, rfl⟩ := List.append_of_mem h
    rw [List.append_assoc, List.cons_append] at herrors
    exact isUnterminated_of_behind herrors
      (List.append_ne_nil_of_right_ne_nil after (List.cons_ne_nil last []))

/-- Every diagnostic of a scan is about a lexeme that a run starts. -/
theorem exists_faultAt_of_mem {source : String} {d : Diagnostic} (h : d ∈ (scan source).errors) :
    ∃ p, Scanner.FaultAt source p d := by
  obtain ⟨i, hi⟩ := List.getElem?_of_mem h
  rw [errors_scan] at hi
  obtain ⟨front, s, back, hsplit, -, hs⟩ := exists_of_getElem?_locate Located.isSome_diagnostic? hi
  exact ⟨_, Scanner.faultAt_iff.mpr ⟨front, s, back, hsplit, rfl, hs⟩⟩

/-- A lexeme that the end of the text cuts off is the last segment, and reaches to the end. -/
theorem exists_open_of_faultAt {source : String} {p : String.Pos.Raw} {d : Diagnostic}
    (h : Scanner.FaultAt source p d) (hopen : d.fault.isUnterminated = true) :
    ∃ front s, segments source.toList = front ++ [s] ∧ s.isOpen = true ∧
      p = ⟨utf8Len (front.flatMap Segment.text)⟩ ∧ IsMalformed d.fault s.text [] ∧
      (⟨s, 1 + lineFeeds (front.flatMap Segment.text)⟩ : Located).diagnostic? = some d := by
  obtain ⟨front, s, back, hsplit, hp, hs⟩ := Scanner.faultAt_iff.mp h
  have hpiece : s.piece = .malformed d.fault := piece_of_diagnostic? hs
  have hsopen : s.isOpen = true := by simpa [Segment.isOpen, Segment.fault?, hpiece] using hopen
  obtain rfl := eq_nil_of_split_of_isOpen hsplit hsopen
  have hbelongs := (belongs_of_split hsplit).1
  unfold Segment.Belongs at hbelongs
  rw [hpiece] at hbelongs
  exact ⟨front, s, hsplit, hsopen, hp, hbelongs, hs⟩

/-- What a text ends in from a segment on is the segment, if it is the last. -/
theorem textFrom_of_last {source : String} {front : List Segment} {s : Segment}
    (hsplit : segments source.toList = front ++ [s]) :
    textFrom source ⟨utf8Len (front.flatMap Segment.text)⟩ = String.ofList s.text := by
  have hsource := text_of_split hsplit
  rw [List.flatMap_singleton] at hsource
  exact textFrom_utf8Len hsource

/-- What follows the quote of a cut-off string. -/
theorem textFrom_quote {source : String} {front : List Segment} {s : Segment} {body : List Char}
    (hsplit : segments source.toList = front ++ [s]) (hs : s.text = '"' :: body) :
    textFrom source ((⟨utf8Len (front.flatMap Segment.text)⟩ : String.Pos.Raw) + '"') =
      String.ofList body := by
  have hsource : source.toList = (front.flatMap Segment.text ++ ['"']) ++ body := by
    rw [text_of_split hsplit, List.flatMap_singleton, hs, List.append_assoc]
    rfl
  rw [← textFrom_utf8Len hsource, String.utf8Len_append]
  rfl

/-- **Closing what is open.** All diagnostics of a scan but the last one are about stray characters,
and each is about a lexeme that the run starts. A string that the end of the text cuts off is a
string token once a quote follows, the text behind its own quote its value, on the line it was
reported for; a comment is a comment once its closer follows. Nothing else changes: the other
tokens and diagnostics are those of the text, and the end of input is on its line. -/
theorem scan_closes (source : String) :
    (∀ d ∈ (scan source).errors.dropLast, d.fault.isUnterminated = false) ∧
      (∀ d ∈ (scan source).errors, ∃ p, Scanner.FaultAt source p d) ∧
      (∀ p line, Scanner.FaultAt source p ⟨.unterminatedString, line⟩ →
        (∃ last, (scan source).tokens = (scan source).proper ++ [last] ∧
          (scan (source ++ "\"")).tokens = (scan source).proper ++
            [⟨.string, textFrom source p ++ "\"", some (.string (textFrom source (p + '"'))), line⟩,
              last]) ∧
        (scan source).errors = (scan (source ++ "\"")).errors ++ [⟨.unterminatedString, line⟩]) ∧
      ∀ p line, Scanner.FaultAt source p ⟨.unterminatedBlockComment, line⟩ →
        (scan (source ++ "*/")).tokens = (scan source).tokens ∧
        (scan source).errors =
          (scan (source ++ "*/")).errors ++ [⟨.unterminatedBlockComment, line⟩] := by
  refine ⟨fun d hd => isUnterminated_of_mem_dropLast hd, fun d hd => exists_faultAt_of_mem hd,
    fun p line hfault => ?_, fun p line hfault => ?_⟩
  · obtain ⟨front, s, hsplit, hopen, rfl, hmalformed, hs⟩ := exists_open_of_faultAt hfault rfl
    obtain ⟨body, hbody, htoken⟩ := isToken_closed hmalformed
    obtain rfl : line = 1 + lineFeeds (front.flatMap Segment.text) :=
      Located.line_of_diagnostic? hs
    have hscan := @scan_of_closed source "\"" front s ⟨.token .string, s.text ++ ['"']⟩ _
      hsplit hopen hs htoken rfl (fun _ => rfl) rfl
    refine ⟨⟨_, tokens_eq_proper_append source, ?_⟩, hscan.2⟩
    rw [hscan.1, textFrom_of_last hsplit, textFrom_quote hsplit hbody, hbody, token?_closed]
    rfl
  · obtain ⟨front, s, hsplit, hopen, -, hmalformed, hs⟩ := exists_open_of_faultAt hfault rfl
    have hcomment := isTrivia_closed hmalformed
    have hscan := @scan_of_closed source "*/" front s ⟨.trivia, s.text ++ closer⟩ _
      hsplit hopen hs hcomment rfl (fun _ => rfl) rfl
    rw [tokens_eq_proper_append source]
    exact hscan

/-- A string that holds a comment opener and a line feed, and a comment whose opener ends in what
looks like a closer, each behind a stray character. -/
theorem scan_closes_string_and_comment :
    let stray : Diagnostic := ⟨.unexpectedCharacter 'é', 1⟩
    let string : Token := ⟨.string, "\"/*\n\"", some (.string "/*\n"), 1⟩
    (stray ∈ (scan "é\"/*\n").errors.dropLast ∧ stray.fault.isUnterminated = false) ∧
      (stray ∈ (scan "é\"/*\n").errors ∧ ∃ p, Scanner.FaultAt "é\"/*\n" p stray) ∧
      (Scanner.FaultAt "é\"/*\n" ⟨2⟩ ⟨.unterminatedString, 1⟩ ∧
        (∃ last, (scan "é\"/*\n").tokens = (scan "é\"/*\n").proper ++ [last] ∧
          (scan "é\"/*\n\"").tokens = (scan "é\"/*\n").proper ++ [string, last]) ∧
        (scan "é\"/*\n").errors = (scan "é\"/*\n\"").errors ++ [⟨.unterminatedString, 1⟩]) ∧
      Scanner.FaultAt "é\n/*/" ⟨3⟩ ⟨.unterminatedBlockComment, 2⟩ ∧
        (scan "é\n/*/*/").tokens = (scan "é\n/*/").tokens ∧
        (scan "é\n/*/").errors = (scan "é\n/*/*/").errors ++ [⟨.unterminatedBlockComment, 2⟩] := by
  intro stray string
  have hmem : stray ∈ (scan "é\"/*\n").errors.dropLast := by decide +kernel
  have hstring : Scanner.FaultAt "é\"/*\n" ⟨2⟩ ⟨.unterminatedString, 1⟩ :=
    Scanner.faultAt_iff.mpr
      ⟨[⟨.malformed (.unexpectedCharacter 'é'), ['é']⟩],
        ⟨.malformed .unterminatedString, ['"', '/', '*', '\n']⟩, [],
        by decide +kernel, by decide +kernel, by decide +kernel⟩
  have hcomment : Scanner.FaultAt "é\n/*/" ⟨3⟩ ⟨.unterminatedBlockComment, 2⟩ :=
    Scanner.faultAt_iff.mpr
      ⟨[⟨.malformed (.unexpectedCharacter 'é'), ['é']⟩, ⟨.trivia, ['\n']⟩],
        ⟨.malformed .unterminatedBlockComment, ['/', '*', '/']⟩, [],
        by decide +kernel, by decide +kernel, by decide +kernel⟩
  have hlexeme : textFrom "é\"/*\n" ⟨2⟩ ++ "\"" = "\"/*\n\"" := by decide +kernel
  have hvalue : textFrom "é\"/*\n" ((⟨2⟩ : String.Pos.Raw) + '"') = "/*\n" := by decide +kernel
  have hclosed : "é\"/*\n" ++ "\"" = "é\"/*\n\"" := by decide +kernel
  have hcommented : "é\n/*/" ++ "*/" = "é\n/*/*/" := by decide +kernel
  obtain ⟨hstray, hfound, hquote, -⟩ := scan_closes "é\"/*\n"
  obtain ⟨-, -, -, hcloser⟩ := scan_closes "é\n/*/"
  have hquoted := hquote _ _ hstring
  have hclosing := hcloser _ _ hcomment
  rw [hlexeme, hvalue, hclosed] at hquoted
  rw [hcommented] at hclosing
  have hall := List.dropLast_subset _ hmem
  exact ⟨⟨hmem, hstray _ hmem⟩, ⟨hall, hfound _ hall⟩, ⟨hstring, hquoted⟩, hcomment, hclosing⟩

end LoxLexer
