import LoxLexer.Prompt
import LoxLexer.Proofs.Segment.Lookahead

/-!
# Line feeds between texts

Whatever a text ends in, a line feed behind it ends the last segment, unless a string or a block
comment is open: half a number, a slash, a word or a line comment is no different from the same at
the end of a text. So the scan of two texts with a line feed between is the two scans, the lines of
the second moved on.

## Results

* `segments_append_lineFeed`: a line feed ends what the end of the text ends.
* `scan_append`: the scan of two texts that may be cut apart.
* `scan_append_lineFeed`: the scan of two texts with a line feed between; `scan_across_lineFeed`: its
  end of input too.
* `scan_append_final_lineFeed`: a line feed at the end changes no scan, open or not.
-/

namespace LoxLexer

/-! ## Segments in front of a line feed -/

/-- **A line feed ends a segment** as the end of the text does, if nothing is open. -/
theorem segments_append_lineFeed {text : List Char}
    (h : ∀ s ∈ segments text, s.isOpen = false) (rest : List Char) :
    segments (text ++ '\n' :: rest) = segments text ++ ⟨.trivia, ['\n']⟩ :: segments rest := by
  have hlf : Opening.of '\n' = .lineFeed := rfl
  have hsegments : segments ((segments text).flatMap Segment.text ++ '\n' :: rest) =
      segments text ++ segments ('\n' :: rest) := by
    refine segments_exchange (List.append_nil _).symm fun s hs between hbelongs hstop => ?_
    rw [List.flatMap_nil, List.append_nil] at hbelongs hstop
    exact ⟨belongs_of_closed (h s hs) hbelongs _, stopsBefore_append_lineFeed (h s hs) hstop rest⟩
  rw [flatMap_text_segments] at hsegments
  rw [hsegments, segments_cons, cut_blank (Or.inr hlf)]

/-- What is open takes a line feed in and stays open. -/
theorem belongs_append_lineFeed {s : Segment} (hopen : s.isOpen = true) (h : s.Belongs []) :
    (⟨s.piece, s.text ++ ['\n']⟩ : Segment).Belongs [] := by
  obtain ⟨piece, lexeme⟩ := s
  cases piece with
  | token | trivia => cases hopen
  | malformed fault =>
    have hmalformed : IsMalformed fault lexeme [] := h
    cases hmalformed with
    | stray => cases hopen
    | @string body hbody =>
      show IsMalformed .unterminatedString ('"' :: (body ++ ['\n'])) []
      refine .string fun a ha => ?_
      rcases List.mem_append.mp ha with ha | ha
      · exact hbody a ha
      · rw [List.mem_singleton.mp ha]
        decide
    | @blockComment body hbody =>
      show IsMalformed .unterminatedBlockComment ('/' :: '*' :: (body ++ ['\n'])) []
      exact .blockComment (not_closer_infix_concat (by decide) hbody)

/-- A line feed at the end goes into the open segment, or is one of its own. -/
theorem segments_append_final_lineFeed (text : List Char) :
    segments (text ++ ['\n']) = segments text ++ [⟨.trivia, ['\n']⟩] ∨
      ∃ before s, segments text = before ++ [s] ∧ s.isOpen = true ∧
        segments (text ++ ['\n']) = before ++ [⟨s.piece, s.text ++ ['\n']⟩] := by
  by_cases hclosed : ∀ s ∈ segments text, s.isOpen = false
  · exact Or.inl (by simpa using segments_append_lineFeed hclosed [])
  · simp only [not_forall, Bool.not_eq_false] at hclosed
    obtain ⟨s, hs, hopen⟩ := hclosed
    obtain ⟨before, back, hsplit⟩ := List.append_of_mem hs
    obtain rfl := eq_nil_of_split_of_isOpen hsplit hopen
    have hbelongs := belongs_append_lineFeed hopen (belongs_of_split hsplit).1
    exact Or.inr ⟨before, s, hsplit, hopen, segments_append_of_open hsplit hopen hbelongs rfl⟩

/-! ## Lines moved on -/

/-- The token, a number of lines further on. -/
def Token.shift (n : Nat) (t : Token) : Token := { t with line := t.line + n }

/-- The diagnostic, a number of lines further on. -/
def Diagnostic.shift (n : Nat) (d : Diagnostic) : Diagnostic := { d with line := d.line + n }

/-- The segment, a number of lines further on. -/
def Located.shift (n : Nat) (s : Located) : Located := { s with line := s.line + n }

/-- How many lines a text has. -/
def lineCount (text : String) : Nat := 1 + lineFeeds text.toList

theorem Located.token?_shift (n : Nat) (s : Located) :
    (s.shift n).token? = s.token?.map (Token.shift n) := by
  unfold token? shift
  split <;> simp_all [Token.shift]

theorem Located.diagnostic?_shift (n : Nat) (s : Located) :
    (s.shift n).diagnostic? = s.diagnostic?.map (Diagnostic.shift n) := by
  unfold diagnostic? shift
  split <;> simp_all [Diagnostic.shift]

theorem locate_shift (line n : Nat) (segments : List Segment) :
    locate (line + n) segments = (locate line segments).map (Located.shift n) := by
  induction segments generalizing line with
  | nil => rfl
  | cons s segments ih =>
    rw [locate_cons, locate_cons, List.map_cons, ← ih, Nat.add_right_comm]
    rfl

theorem locate_append (line : Nat) (before after : List Segment) :
    locate line (before ++ after) =
      locate line before ++ locate (line + lineFeeds (before.flatMap Segment.text)) after := by
  induction before generalizing line with
  | nil => rfl
  | cons s before ih =>
    rw [List.cons_append, locate_cons, locate_cons, ih, List.flatMap_cons, lineFeeds_append,
      Nat.add_assoc]
    rfl

/-! ## Scans of two texts -/

/-- Nothing is open in a scan if no segment of its text is. -/
theorem isOpen_scan (text : String) :
    (scan text).isOpen = (segments text.toList).any Segment.isOpen := by
  have hfaults : (scan text).isOpen =
      ((scan text).errors.map Diagnostic.fault).any Fault.isUnterminated := by
    rw [List.any_map]
    rfl
  rw [hfaults, map_errors_scan, List.any_filterMap]
  rfl

theorem isOpen_empty : (scan "").isOpen = false := by
  rw [isOpen_scan, String.toList_empty, segments_nil, List.any_nil]

theorem isOpen_of_mem {text : String} (h : (scan text).isOpen = false) :
    ∀ s ∈ segments text.toList, s.isOpen = false := by
  rw [isOpen_scan, List.any_eq_false] at h
  intro s hs
  simpa using h s hs

/-- The segments of two texts that may be cut apart, the second moved on by the lines of the
first. -/
theorem located_append {a b : List Char} (h : segments (a ++ b) = segments a ++ segments b) :
    located (a ++ b) = located a ++ (located b).map (Located.shift (lineFeeds a)) := by
  unfold located
  rw [h, locate_append, flatMap_text_segments, locate_shift]

/-- **Texts that may be cut apart are scanned apart**, the lines of the second moved on. -/
theorem scan_append {a b : String}
    (h : segments (a.toList ++ b.toList) = segments a.toList ++ segments b.toList) :
    (scan (a ++ b)).proper =
        (scan a).proper ++ (scan b).proper.map (Token.shift (lineFeeds a.toList)) ∧
      (scan (a ++ b)).errors =
        (scan a).errors ++ (scan b).errors.map (Diagnostic.shift (lineFeeds a.toList)) := by
  constructor
  · simp only [proper_scan]
    rw [String.toList_append, located_append h, List.filterMap_append, List.filterMap_map,
      List.map_filterMap]
    congr 2
    funext s
    exact Located.token?_shift _ s
  · simp only [errors_scan]
    rw [String.toList_append, located_append h, List.filterMap_append, List.filterMap_map,
      List.map_filterMap]
    congr 2
    funext s
    exact Located.diagnostic?_shift _ s

/-- **A line feed at the end changes nothing**, also where a string or a block comment is open. -/
theorem scan_append_final_lineFeed (a : String) :
    (scan (a ++ "\n")).proper = (scan a).proper ∧ (scan (a ++ "\n")).errors = (scan a).errors := by
  have htext : (a ++ "\n").toList = a.toList ++ ['\n'] := by simp
  simp only [proper_scan, errors_scan]
  rw [htext]
  unfold located
  rcases segments_append_final_lineFeed a.toList with heq | ⟨before, s, hbefore, hs, heq⟩
  · rw [heq, locate_append, locate_cons, List.filterMap_append, List.filterMap_append]
    constructor <;> simp [Located.token?, Located.diagnostic?]
  · obtain ⟨piece, lexeme⟩ := s
    rw [heq, hbefore, locate_append, locate_append, locate_cons, locate_cons]
    cases piece with
    | token | trivia => simp [Segment.isOpen, Segment.fault?] at hs
    | malformed fault =>
      constructor <;> rw [List.filterMap_append, List.filterMap_append] <;> rfl

/-- **A line feed joins two scans.** If nothing is open in the first text, the scan of both with a
line feed between is the scan of the first and then that of the second, its lines moved on. -/
theorem scan_append_lineFeed {a b : String} (h : (scan a).isOpen = false) :
    (scan (a ++ "\n" ++ b)).proper =
        (scan a).proper ++ (scan b).proper.map (Token.shift (lineCount a)) ∧
      (scan (a ++ "\n" ++ b)).errors =
        (scan a).errors ++ (scan b).errors.map (Diagnostic.shift (lineCount a)) := by
  have htext : (a ++ "\n").toList = a.toList ++ ['\n'] := by simp
  have hlines : lineFeeds (a ++ "\n").toList = lineCount a := by
    rw [htext, lineFeeds_append, Nat.add_comm]
    rfl
  have hsplit : segments ((a ++ "\n").toList ++ b.toList) =
      segments (a ++ "\n").toList ++ segments b.toList := by
    have hclosed := segments_append_lineFeed (isOpen_of_mem h)
    have hrest : a.toList ++ ['\n'] ++ b.toList = a.toList ++ '\n' :: b.toList := by simp
    rw [htext, hrest, hclosed, hclosed, segments_nil, List.append_assoc]
    rfl
  have hscan := scan_append hsplit
  rwa [(scan_append_final_lineFeed a).1, (scan_append_final_lineFeed a).2, hlines] at hscan

theorem isOpen_append_lineFeed (text : String) :
    (scan (text ++ "\n")).isOpen = (scan text).isOpen := by
  unfold Scan.isOpen
  rw [(scan_append_final_lineFeed text).2]

/-- **A line feed composes scans.** With a line feed between, and nothing open in front of it, two
texts have the tokens of the first and then all of the second, the end of input with them, and the
diagnostics of both. Those of the second are as many lines further on as the first has. -/
theorem scan_across_lineFeed {a b : String} (h : (scan a).isOpen = false) :
    (scan (a ++ "\n" ++ b)).tokens =
        (scan a).proper ++ (scan b).tokens.map (Token.shift (lineCount a)) ∧
      (scan (a ++ "\n" ++ b)).errors =
        (scan a).errors ++ (scan b).errors.map (Diagnostic.shift (lineCount a)) := by
  obtain ⟨hproper, herrors⟩ := @scan_append_lineFeed a b h
  have hlines : lineFeeds (a ++ "\n" ++ b).toList = lineFeeds b.toList + lineCount a := by
    have hone : lineFeeds "\n".toList = 1 := rfl
    simp only [String.toList_append, lineFeeds_append, hone, lineCount]
    omega
  have hend : Token.endOfInput (1 + lineFeeds (a ++ "\n" ++ b).toList) =
      (Token.endOfInput (1 + lineFeeds b.toList)).shift (lineCount a) := by
    rw [hlines, ← Nat.add_assoc]
    rfl
  refine ⟨?_, herrors⟩
  rw [tokens_eq_proper_append, tokens_eq_proper_append b, hproper, hend, List.map_append,
    List.append_assoc]
  rfl

/-- A number with its point in front of a digit on the next line, behind a stray character. -/
theorem scan_across_lineFeed_of_point :
    (scan "é\n1.").isOpen = false ∧
      (scan "é\n1.\n5").tokens = (scan "é\n1.").proper ++ (scan "5").tokens.map (Token.shift 2) ∧
      (scan "é\n1.\n5").errors =
        (scan "é\n1.").errors ++ (scan "5").errors.map (Diagnostic.shift 2) := by
  have hclosed : (scan "é\n1.").isOpen = false := by decide +kernel
  have htext : "é\n1." ++ "\n" ++ "5" = "é\n1.\n5" := by decide +kernel
  have hlines : lineCount "é\n1." = 2 := by decide +kernel
  have hscan := @scan_across_lineFeed "é\n1." "5" hclosed
  rw [htext, hlines] at hscan
  exact ⟨hclosed, hscan⟩

end LoxLexer
