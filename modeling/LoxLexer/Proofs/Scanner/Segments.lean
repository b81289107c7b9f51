import LoxLexer.Proofs.Scanner.Cursor
import LoxLexer.Proofs.Segment.Grammar
import LoxLexer.Scan

/-!
# The scanner cuts segments

What the scanner does with a cursor, two characters of lookahead and a line counter is `cut` on what
is left of the text: the lexeme it reads is the segment, the reading is what the segment is, and the
cursor has read exactly the segment.

## Results

* `readOn_within`: reading on behind a first character is `cut`, for every opening.
* `next_of_readUpTo`: one step of the scanner, from any place between two segments.
* `run_of_readUpTo`: a whole run, by induction on the segments left.
* `tokens_scan`, `errors_scan`: a scan sorts the located segments into tokens and diagnostics.
-/

namespace LoxLexer

open String (utf8Len)

/-- What comes of a segment that starts on a line. -/
def Segment.reading (s : Segment) (line : Nat) : Reading :=
  match s.piece with
  | .token kind => .ok (some (kind, literal? kind s.text))
  | .trivia => .ok none
  | .malformed fault => .error ⟨fault, line⟩

/-! ## Values -/

/-- Marks have no value. -/
theorem literal?_of_mark {c : Char} {kind : Kind} (h : Opening.of c = .mark kind)
    (lexeme : List Char) : literal? kind lexeme = none := by
  have hmem : (c, kind) ∈ Opening.marks := Opening.announces_of_eq h
  simp only [Opening.marks, List.mem_cons, Prod.mk.injEq, List.not_mem_nil, or_false] at hmem
  rcases hmem with ⟨-, rfl⟩ | ⟨-, rfl⟩ | ⟨-, rfl⟩ | ⟨-, rfl⟩ | ⟨-, rfl⟩ | ⟨-, rfl⟩ | ⟨-, rfl⟩ |
    ⟨-, rfl⟩ | ⟨-, rfl⟩ | ⟨-, rfl⟩ <;> rfl

theorem literal?_of_withEqual {c : Char} {alone followed : Kind}
    (h : Opening.of c = .withEqual alone followed) (lexeme : List Char) :
    literal? alone lexeme = none ∧ literal? followed lexeme = none := by
  have hmem : (c, alone, followed) ∈ Opening.equalMarks := Opening.announces_of_eq h
  simp only [Opening.equalMarks, List.mem_cons, Prod.mk.injEq, List.not_mem_nil, or_false] at hmem
  rcases hmem with ⟨-, rfl, rfl⟩ | ⟨-, rfl, rfl⟩ | ⟨-, rfl, rfl⟩ | ⟨-, rfl, rfl⟩ <;>
    exact ⟨rfl, rfl⟩

theorem literal?_ofWord (word lexeme : List Char) : literal? (.ofWord word) lexeme = none := by
  unfold Kind.ofWord
  cases Keyword.ofWord? (String.ofList word) <;> rfl

/-- A string's value is its lexeme without the first and the last byte, which are quotes. -/
theorem extract_quoted (body : List Char) :
    String.Pos.Raw.extract (String.ofList ('"' :: body ++ ['"'])) ⟨1⟩
        ⟨(String.ofList ('"' :: body ++ ['"'])).utf8ByteSize - 1⟩ = String.ofList body := by
  have hquote : '"'.utf8Size = 1 := rfl
  have hsize : (String.ofList ('"' :: body ++ ['"'])).utf8ByteSize - 1 =
      String.utf8Len ['"'] + String.utf8Len body := by
    rw [String.utf8ByteSize_ofList]
    simp [hquote]
    omega
  rw [hsize]
  exact String.extract_of_valid ['"'] body ['"']

namespace Cursor

variable {source : String} {before text : List Char}

/-! ## One reading after the other -/

theorem readString_within (h : source.toList = before ++ '"' :: text) :
    (within before ['"']).readString source =
      ((cut '"' text).1.reading (1 + lineFeeds before), within before (cut '"' text).1.text) := by
  have hquote : source.toList = before ++ ['"'] ++ text := by simpa using h
  have hread := read_within .string hquote
  have hsrc := toList_behind_run .string hquote
  have hstop := stopsAt_dropWhile (· ≠ '"') text
  rw [Run.split_string] at hread hsrc
  dsimp only at hread hsrc
  unfold readString
  simp only [hread]
  cases hd : text.dropWhile (· ≠ '"') with
  | nil =>
    have hall : text.takeWhile (· ≠ '"') = text := by
      have happ := List.takeWhile_append_dropWhile (p := (· ≠ '"')) (l := text)
      rwa [hd, List.append_nil] at happ
    rw [hd] at hsrc
    rw [if_pos (by rw [atEnd_within hsrc]; rfl), hall, cut_openString hd]
    rfl
  | cons close after =>
    obtain rfl : close = '"' := by simpa using hstop close (by rw [hd]; rfl)
    rw [hd] at hsrc
    have hclosed : source.toList =
        before ++ (['"'] ++ text.takeWhile (· ≠ '"') ++ ['"']) ++ after := by
      rw [hsrc]
      simp
    have hvalue := extract_quoted (text.takeWhile (· ≠ '"'))
    rw [if_neg (by rw [atEnd_within hsrc]; simp), skip_within_of_ne hsrc (by decide),
      lexeme_within hclosed, cut_string hd]
    simp only [Segment.reading, literal?, List.singleton_append] at hvalue ⊢
    rw [hvalue]
    simp

/-- A number goes on behind a point if the two characters that follow say so. -/
theorem point_within {lexeme rest : List Char} (h : source.toList = before ++ lexeme ++ rest) :
    ((within before lexeme).peek source = some '.' &&
        ((within before lexeme).peekSecond source).any Char.isDigit) = true ↔
      ∃ d after, rest = '.' :: d :: after ∧ d.isDigit = true := by
  rw [peek_within h]
  cases rest with
  | nil => simp
  | cons a rest =>
    rw [peekSecond_within h]
    cases rest <;> simp

theorem readNumber_within {c : Char} (hc : c.isDigit = true)
    (h : source.toList = before ++ c :: text) :
    (within before [c]).readNumber source =
      (.ok (some (.number, literal? .number (c :: (restOfNumber text).1))),
        within before (c :: (restOfNumber text).1)) := by
  have hvalue := ofChars?_of_isToken (isToken_number hc text)
  have hdigit : source.toList = before ++ [c] ++ text := by simpa using h
  have hread := read_within .digits hdigit
  have hsrc := toList_behind_run .digits hdigit
  rw [Run.split_digits] at hread hsrc
  dsimp only at hread hsrc
  unfold readNumber
  simp only [hread]
  by_cases hpoint : ∃ d rest, text.dropWhile Char.isDigit = '.' :: d :: rest ∧ d.isDigit = true
  · rw [if_pos ((point_within hsrc).mpr hpoint)]
    obtain ⟨d, rest, hrest, hd⟩ := hpoint
    rw [hrest] at hsrc
    have hplaces : source.toList =
        before ++ ([c] ++ text.takeWhile Char.isDigit ++ ['.']) ++ d :: rest := by
      rw [hsrc]
      simp
    have hend := toList_behind_run .digits hplaces
    rw [restOfNumber_of_fraction hrest hd] at hvalue ⊢
    rw [skip_within_of_ne hsrc (by decide), read_within .digits hplaces, lexeme_within hend,
      Run.split_digits, List.takeWhile_cons_of_pos hd]
    simp [literal?, hvalue]
  · rw [restOfNumber_of_whole hpoint] at hvalue ⊢
    rw [if_neg (by rw [point_within hsrc]; exact hpoint), lexeme_within hsrc]
    simp [literal?, hvalue]

theorem readWord_within {c : Char} (h : source.toList = before ++ c :: text) :
    (within before [c]).readWord source =
      (.ok (some (.ofWord (c :: text.takeWhile isWordPart), none)),
        within before (c :: text.takeWhile isWordPart)) := by
  have hletter : source.toList = before ++ [c] ++ text := by simpa using h
  have hread := read_within .word hletter
  have hsrc := toList_behind_run .word hletter
  rw [Run.split_word] at hread hsrc
  dsimp only at hread hsrc
  unfold readWord
  simp only [hread]
  rw [lexeme_within hsrc, String.toList_ofList]
  rfl

theorem readBlockComment_within (h : source.toList = before ++ '/' :: '*' :: text) :
    (within before ['/', '*']).readBlockComment source =
      ((cut '/' ('*' :: text)).1.reading (1 + lineFeeds before),
        within before (cut '/' ('*' :: text)).1.text) := by
  have hopener : source.toList = before ++ ['/', '*'] ++ text := by simpa using h
  have hread := read_within .blockComment hopener
  have hsrc := toList_behind_run .blockComment hopener
  unfold readBlockComment
  simp only [hread]
  rcases Run.split_blockComment [] text with ⟨hend, hopen⟩ | ⟨after, hafter, hclosed⟩
  · have hall : (Run.blockComment.split text).1 = text := by
      have happ := Run.split_append .blockComment text
      rwa [hend, List.append_nil] at happ
    rw [hend] at hsrc
    rw [if_pos (by rw [atEnd_within hsrc]; rfl), hall, cut_openComment hopen]
    rfl
  · rw [hafter] at hsrc
    have hslash : source.toList =
        before ++ (['/', '*'] ++ (Run.blockComment.split text).1 ++ ['*']) ++ '/' :: after := by
      rw [hsrc]
      simp
    rw [if_neg (by rw [atEnd_within hsrc]; simp), skip_within_of_ne hsrc (by decide),
      skip_within_of_ne hslash (by decide), cut_blockComment hclosed]
    simp [Segment.reading]

theorem readSlash_within (h : source.toList = before ++ '/' :: text) :
    (within before ['/']).readSlash source =
      ((cut '/' text).1.reading (1 + lineFeeds before), within before (cut '/' text).1.text) := by
  have hsrc : source.toList = before ++ ['/'] ++ text := by simpa using h
  unfold readSlash
  rw [accept_within '/' (by decide) hsrc]
  by_cases hline : text.head? = some '/'
  · obtain ⟨rest, rfl⟩ := List.head?_eq_some_iff.mp hline
    have hbody : source.toList = before ++ (['/'] ++ ['/']) ++ rest := by simpa using h
    rw [if_pos hline, cut_lineComment]
    simp only
    rw [read_within .lineComment hbody, Run.split_lineComment]
    rfl
  · rw [if_neg hline]
    simp only
    rw [accept_within '*' (by decide) hsrc]
    by_cases hblock : text.head? = some '*'
    · obtain ⟨rest, rfl⟩ := List.head?_eq_some_iff.mp hblock
      rw [if_pos hblock]
      exact readBlockComment_within h
    · rw [if_neg hblock, cut_slash hline hblock]
      rfl

/-! ## Any first character -/

/-- **Reading on is `cut`.** The cursor has just read the first character, and no line feed in it
has been counted. -/
theorem readOn_within {c : Char} (h : source.toList = before ++ c :: text) :
    ({ within before [c] with line := 1 + lineFeeds before } : Cursor).readOn source c =
      ((cut c text).1.reading (1 + lineFeeds before), within before (cut c text).1.text) := by
  have hsrc : source.toList = before ++ [c] ++ text := by simpa using h
  by_cases hlf : c = '\n'
  · subst hlf
    have hopen : Opening.of '\n' = .lineFeed := rfl
    simp only [readOn, hopen, newLine, cut_blank (Or.inr hopen)]
    simp [within, lineFeeds_cons, Segment.reading, Nat.add_assoc]
  · have hcursor : ({ within before [c] with line := 1 + lineFeeds before } : Cursor) =
        within before [c] := by
      simp [within, lineFeeds_singleton_of_ne hlf]
    rw [hcursor]
    cases hopen : Opening.of c with
    | mark kind =>
      simp only [readOn, hopen, cut_mark hopen, Segment.reading, literal?_of_mark hopen]
    | withEqual alone followed =>
      have hval := literal?_of_withEqual hopen
      simp only [readOn, hopen]
      rw [accept_within '=' (by decide) hsrc]
      by_cases heq : text.head? = some '='
      · obtain ⟨rest, rfl⟩ := List.head?_eq_some_iff.mp heq
        rw [if_pos heq, cut_followed hopen]
        simp only [Segment.reading, (hval _).2]
        rfl
      · rw [if_neg heq, cut_alone hopen heq]
        simp only [Segment.reading, (hval _).1]
    | slash =>
      obtain rfl : c = '/' := Opening.announces_of_eq hopen
      simp only [readOn, hopen]
      exact readSlash_within h
    | blank => simp only [readOn, hopen, cut_blank (Or.inl hopen), Segment.reading]
    | lineFeed => exact absurd (Opening.announces_of_eq hopen) hlf
    | quote =>
      obtain rfl : c = '"' := Opening.announces_of_eq hopen
      simp only [readOn, hopen]
      exact readString_within h
    | digit =>
      simp only [readOn, hopen, cut_number hopen, Segment.reading]
      exact readNumber_within (Opening.announces_of_eq hopen) h
    | wordStart =>
      simp only [readOn, hopen, cut_word hopen, Segment.reading, literal?_ofWord]
      exact readWord_within h
    | stray =>
      simp only [readOn, hopen, cut_stray hopen, Segment.reading]
      simp [within, lineFeeds_singleton_of_ne hlf]

end Cursor

/-! ## Steps and runs of the scanner -/

namespace Scanner

/-- The scanner stands behind `before`, between two segments. Where the last lexeme started does not
matter. -/
structure ReadUpTo (before : List Char) (s : Scanner) : Prop where
  place : s.cursor.place = ⟨utf8Len before⟩
  line : s.cursor.line = 1 + lineFeeds before

variable {source : String} {before text : List Char} {s : Scanner}

theorem readUpTo_new : ReadUpTo [] new := ⟨rfl, rfl⟩

theorem readUpTo_within (before lexeme : List Char) (tokens : List Token) :
    ReadUpTo (before ++ lexeme) ⟨.within before lexeme, tokens⟩ := ⟨rfl, rfl⟩

theorem beginLexeme_of_readUpTo (h : s.ReadUpTo before) :
    s.cursor.beginLexeme = .within before [] := by
  simp [Cursor.beginLexeme, Cursor.within, h.place, h.line]

theorem atEnd_of_readUpTo (h : s.ReadUpTo before) (hsrc : source.toList = before ++ text) :
    s.cursor.atEnd source = text.isEmpty := by
  have hsrc' : source.toList = before ++ [] ++ text := by simpa using hsrc
  have hat := Cursor.atEnd_within hsrc'
  rw [← beginLexeme_of_readUpTo h] at hat
  exact hat

/-- **One step of the scanner** takes up one segment. -/
theorem next_of_readUpTo {c : Char} (h : s.ReadUpTo before)
    (hsrc : source.toList = before ++ c :: text) :
    s.next source =
      let found : Located := ⟨(cut c text).1, 1 + lineFeeds before⟩
      (match found.diagnostic? with
        | some d => .error d
        | none => .ok (),
      ⟨.within before found.segment.text, found.token?.toList ++ s.tokens⟩) := by
  have hread := Cursor.readOn_within hsrc
  have hsrc' : source.toList = before ++ [] ++ c :: text := by simpa using hsrc
  have hpeek : (Cursor.within before []).peek source = some c := Cursor.peek_within hsrc'
  have hadv : (Cursor.within before []).advance source =
      (some c, { Cursor.within before [c] with line := 1 + lineFeeds before }) := by
    have hskip := Cursor.skip_within hsrc'
    rw [List.append_nil] at hskip
    rw [← List.nil_append [c], ← hskip]
    unfold Cursor.skip Cursor.advance
    rw [hpeek]
  have htext := text_cut c text
  unfold next
  rw [beginLexeme_of_readUpTo h, hadv]
  simp only [hread]
  generalize (cut c text).1 = segment at *
  obtain ⟨piece, lexeme⟩ := segment
  cases piece with
  | token kind =>
    have hrest : source.toList = before ++ lexeme ++ (cut c text).2 := by
      rw [hsrc, ← htext, List.append_assoc]
    have hlex := Cursor.lexeme_within hrest
    simp [Segment.reading, Located.diagnostic?, Located.token?, addToken, hlex]
    rfl
  | trivia => rfl
  | malformed fault => rfl

/-- **A run of the scanner** takes up the segments left, one after the other. -/
theorem run_of_readUpTo {σ : Type} (report : σ → Diagnostic → σ) (state : σ)
    (h : s.ReadUpTo before) (hsrc : source.toList = before ++ text) :
    let found := locate (1 + lineFeeds before) (segments text)
    ∃ cursor, s.run source report state =
      (⟨cursor, .endOfInput (1 + lineFeeds source.toList) ::
          ((found.filterMap Located.token?).reverse ++ s.tokens)⟩,
        (found.filterMap Located.diagnostic?).foldl report state) := by
  induction text using segments_induction generalizing before s state with
  | nil =>
    have hat := atEnd_of_readUpTo h hsrc
    rw [run, if_pos (by rw [hat]; rfl), h.line]
    refine ⟨s.cursor, ?_⟩
    simp [hsrc]
  | cons c text ih =>
    have hat := atEnd_of_readUpTo h hsrc
    have hnext := next_of_readUpTo h hsrc
    have htext := text_cut c text
    rw [run, if_neg (by rw [hat]; simp), hnext, segments_cons, locate_cons]
    have hsrc' : source.toList = before ++ (cut c text).1.text ++ (cut c text).2 := by
      rw [hsrc, List.append_assoc, htext]
    dsimp only
    generalize hfound : (⟨(cut c text).1, 1 + lineFeeds before⟩ : Located) = found
    have htell : tell report state
        (match found.diagnostic? with
          | some d => .error d
          | none => .ok ()) = found.diagnostic?.toList.foldl report state := by
      cases found.diagnostic? <;> rfl
    have hstart := readUpTo_within before (cut c text).1.text (found.token?.toList ++ s.tokens)
    obtain ⟨cursor, hrun⟩ := ih (tell report state _) hstart hsrc'
    rw [hrun, htell, lineFeeds_append, Nat.add_assoc]
    refine ⟨cursor, ?_⟩
    cases ht : found.token? <;> cases hd : found.diagnostic? <;> simp [ht, hd]

end Scanner

/-! ## A whole scan -/

/-- **A scan sorts the segments of the text.** The tokens are the token segments with their lines,
and the end of input on the last line. -/
theorem tokens_scan (source : String) :
    (scan source).tokens = (located source.toList).filterMap Located.token? ++
      [.endOfInput (1 + lineFeeds source.toList)] := by
  obtain ⟨cursor, hrun⟩ := Scanner.run_of_readUpTo (fun errors d => d :: errors)
    ([] : List Diagnostic) Scanner.readUpTo_new (List.nil_append source.toList).symm
  unfold scan scanReporting
  rw [hrun]
  simp [located, Scanner.new]

/-- The diagnostics are the malformed segments with their lines. -/
theorem errors_scan (source : String) :
    (scan source).errors = (located source.toList).filterMap Located.diagnostic? := by
  obtain ⟨cursor, hrun⟩ := Scanner.run_of_readUpTo (fun errors d => d :: errors)
    ([] : List Diagnostic) Scanner.readUpTo_new (List.nil_append source.toList).symm
  unfold scan scanReporting
  rw [hrun]
  simp [located]

end LoxLexer
