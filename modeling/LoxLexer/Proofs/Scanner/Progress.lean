import LoxLexer.Proofs.Scan.Extension
import LoxLexer.Proofs.Scan.Restart

/-!
# A scanner never stands inside a character, and never stands still

Places are counted in bytes and characters are one to four bytes long, so a cursor moved by anything
but whole characters could cut a character in two, where the text cannot be sliced. `Placed` says
that both places of a cursor are in order and on character boundaries, `Sound` that its line is that
of its place as well. A cursor is sound between two lexemes and at the head of every round of every
loop inside a lexeme. It is placed wherever the scanner looks at the text, also behind a line feed
that is read and not yet counted.

## Results

* `Cursor.Enters`, `Cursor.Round`: the loops inside a lexeme and their rounds; `Cursor.rounds_read`:
  the rounds are those of `Cursor.read`. `Cursor.readsTo_readOn`: a lexeme is read by these loops
  and no others, so that every call of a run says the same (`SafeCall.readsTo`).
* `Scanner.LoopHead`, `Scanner.LooksFrom`: the cursors a lexeme is read with.
* `Scanner.safeCall_of_reached`: what holds of the reading of one lexeme, wherever a run stands.
* `Scanner.run_safe`: the same of a whole run, which ends and finds at most one thing per character.
-/

namespace LoxLexer

open String (utf8Len)

/-! ## Places on character boundaries -/

theorem isValid_utf8Len {source : String} {front rest : List Char}
    (h : source.toList = front ++ rest) : (⟨utf8Len front⟩ : String.Pos.Raw).IsValid source := by
  rw [String.Pos.Raw.isValid_iff_exists_append]
  refine ⟨String.ofList front, String.ofList rest, ?_, ?_⟩
  · rw [← String.ofList_append, ← h, String.ofList_toList]
  · rw [String.rawEndPos_ofList]

/-- The quotes of a string are one byte each. -/
theorem isValid_quotes {lexeme : String} (h : IsToken .string lexeme.toList) :
    1 ≤ lexeme.utf8ByteSize - 1 ∧ (⟨1⟩ : String.Pos.Raw).IsValid lexeme ∧
      (⟨lexeme.utf8ByteSize - 1⟩ : String.Pos.Raw).IsValid lexeme := by
  obtain ⟨body, hbody, -⟩ := exists_body_of_isToken_string h
  have hquote : '"'.utf8Size = 1 := rfl
  have hsize : lexeme.utf8ByteSize - 1 = utf8Len ('"' :: body) := by
    rw [← String.ofList_toList (s := lexeme), hbody, String.utf8ByteSize_ofList]
    simp [hquote]
  rw [hsize]
  have hopen : lexeme.toList = ['"'] ++ (body ++ ['"']) := hbody
  have hclose : lexeme.toList = ('"' :: body) ++ ['"'] := by rw [hbody, List.cons_append]
  refine ⟨?_, isValid_utf8Len hopen, isValid_utf8Len hclose⟩
  rw [String.utf8Len_cons, hquote]
  exact Nat.le_add_left 1 _

/-! ## Cursors in order -/

namespace Cursor

/-- The places of a cursor are in order, inside the text and on character boundaries. -/
structure Placed (source : String) (c : Cursor) : Prop where
  start_le : c.start.byteIdx ≤ c.place.byteIdx
  place_le : c.place.byteIdx ≤ source.utf8ByteSize
  start_isValid : c.start.IsValid source
  place_isValid : c.place.IsValid source

/-- A placed cursor whose line is one more than the line feeds in front of its place. -/
structure Sound (source : String) (c : Cursor) : Prop extends Placed source c where
  line_eq : c.line = 1 + lineFeeds (textUpTo source c.place).toList

variable {source : String} {before lexeme rest : List Char} {run : Run} {c d : Cursor}

theorem sound_within (h : source.toList = before ++ lexeme ++ rest) :
    (within before lexeme).Sound source where
  start_le := by
    unfold within
    rw [String.utf8Len_append]
    exact Nat.le_add_right _ _
  place_le := (isValid_utf8Len h).le_rawEndPos
  start_isValid := isValid_utf8Len (by rw [h, List.append_assoc])
  place_isValid := isValid_utf8Len h
  line_eq := by
    unfold within
    rw [textUpTo_utf8Len h, String.toList_ofList]

/-! ## Loops inside a lexeme -/

/-- The loops that are entered behind the first character of a lexeme, each with the cursor it starts
from. Digits are read twice if a point with a digit behind it follows. -/
inductive Enters (source : String) (first : Char) (c : Cursor) : Run → Cursor → Prop
  | string (h : Opening.of first = .quote) : Enters source first c .string c
  | digits (h : Opening.of first = .digit) : Enters source first c .digits c
  | places (h : Opening.of first = .digit) (hpoint : (c.read source .digits).peek source = some '.')
      (hdigit : ((c.read source .digits).peekSecond source).any Char.isDigit = true) :
      Enters source first c .digits ((c.read source .digits).skip source)
  | word (h : Opening.of first = .wordStart) : Enters source first c .word c
  | lineComment {d : Cursor} (h : Opening.of first = .slash)
      (hslash : c.accept source '/' = (true, d)) : Enters source first c .lineComment d
  | blockComment {d e : Cursor} (h : Opening.of first = .slash)
      (hslash : c.accept source '/' = (false, d)) (hstar : d.accept source '*' = (true, e)) :
      Enters source first c .blockComment e

/-- No other character opens a loop. -/
theorem opening_of_enters {first : Char} (h : c.Enters source first run d) :
    Opening.of first ∈ [.quote, .digit, .wordStart, .slash] := by
  cases h with
  | string h | digits h | places h | word h | lineComment h | blockComment h => simp [h]

/-- One round of a loop, from its head to the head of the next. -/
def Round (source : String) (run : Run) (c d : Cursor) : Prop :=
  run.goesOn (c.peek source) (c.peekSecond source) = true ∧ d = c.step source run

/-- **`read` is the loop**: it goes from round to round and stops where there is none. -/
theorem rounds_read (source : String) (run : Run) (c : Cursor) :
    Relation.ReflTransGen (Round source run) c (c.read source run) ∧
      ∀ d, ¬ Round source run (c.read source run) d := by
  fun_induction read source run c with
  | case1 c hgo ih => exact ⟨.head ⟨hgo, rfl⟩ ih.1, ih.2⟩
  | case2 c hstop => exact ⟨.refl, fun d hround => hstop hround.1⟩

/-- Where a lexeme can end that begins with a character. -/
inductive ReadsTo (source : String) (first : Char) (c : Cursor) : Cursor → Prop
  /-- Behind a loop: where its rounds have ended, or behind the characters there that close a string
  or a comment. -/
  | loop {run : Run} {e last d : Cursor} (h : c.Enters source first run e)
      (hrounds : Relation.ReflTransGen (Round source run) e last)
      (hlast : ∀ next, ¬ Round source run last next)
      (hclose : d = last ∨ d = last.skip source ∨ d = (last.skip source).skip source) :
      ReadsTo source first c d
  /-- Where no loop is entered, behind one more character at most. -/
  | noLoop {d : Cursor} (h : ∀ run e, ¬ c.Enters source first run e)
      (hmore : d = c ∨ d = c.newLine ∨ d = c.skip source) : ReadsTo source first c d

theorem readsTo_of_enters {first : Char} {e : Cursor} (h : c.Enters source first run e)
    (hclose : d = e.read source run ∨ d = (e.read source run).skip source ∨
      d = ((e.read source run).skip source).skip source) : c.ReadsTo source first d :=
  .loop h (rounds_read source run e).1 (rounds_read source run e).2 hclose

/-- **Where a lexeme ends**: behind the last loop that is entered and the characters that close a
string or a comment; where no loop is entered, behind at most one more character. -/
theorem readsTo_readOn (source : String) (first : Char) (c : Cursor) :
    c.ReadsTo source first (c.readOn source first).2 := by
  -- Where the first character opens no loop, only a single character may follow it.
  have hnone (hopen : Opening.of first ∉ [.quote, .digit, .wordStart, .slash]) (run : Run)
      (e : Cursor) : ¬ c.Enters source first run e := fun h => hopen (opening_of_enters h)
  cases hopen : Opening.of first with
  | mark kind | blank | lineFeed | stray =>
    exact .noLoop (hnone (by simp [hopen])) (by simp [readOn, hopen])
  | withEqual alone followed =>
    refine .noLoop (hnone (by simp [hopen])) ?_
    by_cases hequal : c.peek source = some '='
    · exact Or.inr (Or.inr (by simp [readOn, hopen, accept, hequal]))
    · exact Or.inl (by simp [readOn, hopen, accept, hequal])
  | slash =>
    simp only [readOn, hopen, readSlash]
    by_cases hline : c.peek source = some '/'
    · have hslash : c.accept source '/' = (true, c.skip source) := if_pos hline
      rw [hslash]
      exact readsTo_of_enters (.lineComment hopen hslash) (Or.inl rfl)
    · have hslash : c.accept source '/' = (false, c) := if_neg hline
      rw [hslash]
      by_cases hblock : c.peek source = some '*'
      · have hstar : c.accept source '*' = (true, c.skip source) := if_pos hblock
        simp only [hstar]
        refine readsTo_of_enters (.blockComment hopen hslash hstar) ?_
        unfold readBlockComment
        dsimp only
        split
        · exact Or.inl rfl
        · exact Or.inr (Or.inr rfl)
      · have hstar : c.accept source '*' = (false, c) := if_neg hblock
        simp only [hstar]
        refine .noLoop (fun run e he => ?_) (by simp)
        cases he with
        | string h | digits h | places h | word h => simp [hopen] at h
        | lineComment _ h => simp [hslash] at h
        | blockComment _ h h' =>
          rw [hslash] at h
          cases h
          simp [hstar] at h'
  | quote =>
    refine readsTo_of_enters (.string hopen) ?_
    simp only [readOn, hopen, readString]
    split
    · exact Or.inl rfl
    · exact Or.inr (Or.inl rfl)
  | digit =>
    simp only [readOn, hopen, readNumber]
    split
    · next h =>
      rw [Bool.and_eq_true] at h
      exact readsTo_of_enters (.places hopen (by simpa using h.1) h.2) (Or.inl rfl)
    · exact readsTo_of_enters (.digits hopen) (Or.inl rfl)
  | wordStart =>
    simp only [readOn, hopen]
    exact readsTo_of_enters (.word hopen) (Or.inl rfl)

/-- No loop is entered behind a line feed. -/
theorem ne_lineFeed_of_enters {first : Char} (h : c.Enters source first run d) : first ≠ '\n' := by
  rintro rfl
  exact absurd (opening_of_enters h) (by decide)

/-- The cursor has read some of the text behind `before`. -/
def ReadFrom (source : String) (before : List Char) (c : Cursor) : Prop :=
  ∃ lexeme rest, source.toList = before ++ lexeme ++ rest ∧ c = within before lexeme

theorem sound_of_readFrom (h : c.ReadFrom source before) : c.Sound source := by
  obtain ⟨lexeme, rest, hsource, rfl⟩ := h
  exact sound_within hsource

theorem readFrom_skip {a : Char} (h : c.ReadFrom source before) (hpeek : c.peek source = some a)
    (hne : a ≠ '\n') : (c.skip source).ReadFrom source before := by
  obtain ⟨lexeme, rest, hsource, rfl⟩ := h
  rw [peek_within hsource] at hpeek
  obtain ⟨rest, rfl⟩ := List.head?_eq_some_iff.mp hpeek
  exact ⟨lexeme ++ [a], rest, by simpa using hsource, skip_within_of_ne hsource hne⟩

theorem readFrom_of_accept {a : Char} (h : c.ReadFrom source before) (hne : a ≠ '\n')
    {accepted : Bool} (haccept : c.accept source a = (accepted, d)) : d.ReadFrom source before := by
  unfold accept at haccept
  split at haccept
  · next hpeek =>
    cases haccept
    exact readFrom_skip h hpeek hne
  · cases haccept
    exact h

theorem readFrom_of_round (h : c.ReadFrom source before) (hround : Round source run c d) :
    d.ReadFrom source before := by
  obtain ⟨lexeme, rest, hsource, rfl⟩ := h
  obtain ⟨hgo, rfl⟩ := hround
  obtain ⟨a, ha⟩ := exists_peek_of_goesOn hgo
  rw [peek_within hsource] at ha
  obtain ⟨rest, rfl⟩ := List.head?_eq_some_iff.mp ha
  rw [peek_within hsource, peekSecond_within hsource] at hgo
  exact ⟨lexeme ++ [a], rest, by simpa using hsource, step_within hsource hgo⟩

theorem readFrom_of_rounds (h : c.ReadFrom source before)
    (hrounds : Relation.ReflTransGen (Round source run) c d) : d.ReadFrom source before := by
  induction hrounds with
  | refl => exact h
  | tail _ hround ih => exact readFrom_of_round ih hround

theorem readFrom_of_enters {first : Char} (h : c.ReadFrom source before)
    (henters : c.Enters source first run d) : d.ReadFrom source before := by
  cases henters with
  | string | digits | word => exact h
  | places _ hpoint =>
    exact readFrom_skip (readFrom_of_rounds h (rounds_read source .digits c).1) hpoint (by decide)
  | lineComment _ hslash => exact readFrom_of_accept h (by decide) hslash
  | blockComment _ hslash hstar =>
    exact readFrom_of_accept (readFrom_of_accept h (by decide) hslash) (by decide) hstar

end Cursor

/-! ## Reading one lexeme -/

namespace Scanner

open Cursor

/-- The head of a round of a loop, while the scanner reads a lexeme. -/
def LoopHead (source : String) (s : Scanner) (run : Run) (d : Cursor) : Prop :=
  ∃ first c e, s.cursor.beginLexeme.advance source = (some first, c) ∧
    c.Enters source first run e ∧ Relation.ReflTransGen (Round source run) e d

/-- Where the scanner looks at the text while it reads a lexeme: in front of its first character and
behind it, at the head of every round of a loop, and between the two characters that close a
comment. -/
inductive LooksFrom (source : String) (s : Scanner) : Cursor → Prop
  | start : LooksFrom source s s.cursor.beginLexeme
  | behindFirst {first : Char} {c : Cursor}
      (h : s.cursor.beginLexeme.advance source = (some first, c)) : LooksFrom source s c
  | loop {run : Run} {c : Cursor} (h : LoopHead source s run c) : LooksFrom source s c
  | closer {c : Cursor} (h : LoopHead source s .blockComment c) (hstar : c.peek source = some '*') :
      LooksFrom source s (c.skip source)

/-- Nothing can go wrong while the scanner reads a lexeme, and it gets on. -/
structure SafeCall (source : String) (s : Scanner) : Prop where
  loopHead : ∀ run c, LoopHead source s run c → c.Sound source
  looksFrom : ∀ c, LooksFrom source s c → c.Placed source
  /-- These loops read the lexeme: its end is where the rounds of the last one end. -/
  readsTo : ∃ first c, s.cursor.beginLexeme.advance source = (some first, c) ∧
    c.ReadsTo source first (s.next source).2.cursor
  /-- Behind the lexeme the cursor is sound again, whatever came of the lexeme. -/
  sound : (s.next source).2.cursor.Sound source
  /-- At least one whole character is read. -/
  advances : ∃ a, s.cursor.peek source = some a ∧
    s.cursor.place.byteIdx + a.utf8Size ≤ (s.next source).2.cursor.place.byteIdx
  /-- There is at most one token, and none with a diagnostic. -/
  tokens : (s.next source).2.tokens = s.tokens ∨
    ∃ t, (s.next source).1 = .ok () ∧ (s.next source).2.tokens = t :: s.tokens
  /-- The first and the last byte can be taken off the lexeme of a string. -/
  inside : ∀ t, (s.next source).2.tokens = t :: s.tokens → t.kind = .string →
    1 ≤ t.lexeme.utf8ByteSize - 1 ∧ (⟨1⟩ : String.Pos.Raw).IsValid t.lexeme ∧
      (⟨t.lexeme.utf8ByteSize - 1⟩ : String.Pos.Raw).IsValid t.lexeme

variable {source : String} {before text : List Char} {s : Scanner} {run : Run} {c : Cursor}

/-- Behind the first character. A line feed is read and not yet counted. -/
theorem advance_of_readUpTo {first : Char} (h : s.ReadUpTo before)
    (hsource : source.toList = before ++ text)
    (hadvance : s.cursor.beginLexeme.advance source = (some first, c)) :
    ∃ rest, text = first :: rest ∧
      c = { within before [first] with line := 1 + lineFeeds before } := by
  have hsource' : source.toList = before ++ [] ++ text := by simpa using hsource
  have hskip : s.cursor.beginLexeme.skip source = c := congrArg Prod.snd hadvance
  have hpeek : s.cursor.beginLexeme.peek source = some first := by
    cases hp : s.cursor.beginLexeme.peek source with
    | none => simp [advance, hp] at hadvance
    | some a => simpa [advance, hp] using congrArg Prod.fst hadvance
  rw [beginLexeme_of_readUpTo h] at hskip hpeek
  rw [peek_within hsource'] at hpeek
  obtain ⟨rest, rfl⟩ := List.head?_eq_some_iff.mp hpeek
  refine ⟨rest, rfl, ?_⟩
  rw [← hskip, skip_within hsource', List.append_nil, List.nil_append]

theorem readFrom_of_loopHead (h : s.ReadUpTo before) (hsource : source.toList = before ++ text)
    (hhead : LoopHead source s run c) : c.ReadFrom source before := by
  obtain ⟨first, d, e, hadvance, henters, hrounds⟩ := hhead
  obtain ⟨rest, rfl, rfl⟩ := advance_of_readUpTo h hsource hadvance
  refine readFrom_of_rounds (readFrom_of_enters ?_ henters) hrounds
  refine ⟨[first], rest, by simpa using hsource, ?_⟩
  simp [within, lineFeeds_singleton_of_ne (ne_lineFeed_of_enters henters)]

theorem placed_of_looksFrom (h : s.ReadUpTo before) (hsource : source.toList = before ++ text)
    (hlooks : LooksFrom source s c) : c.Placed source := by
  cases hlooks with
  | start =>
    rw [beginLexeme_of_readUpTo h]
    exact (sound_within (by simpa using hsource)).toPlaced
  | @behindFirst first _ hadvance =>
    obtain ⟨rest, rfl, rfl⟩ := advance_of_readUpTo h hsource hadvance
    have hsound : (within before [first]).Sound source := sound_within (by simpa using hsource)
    exact ⟨hsound.start_le, hsound.place_le, hsound.start_isValid, hsound.place_isValid⟩
  | loop hhead => exact (sound_of_readFrom (readFrom_of_loopHead h hsource hhead)).toPlaced
  | closer hhead hstar =>
    have hread := readFrom_skip (readFrom_of_loopHead h hsource hhead) hstar (by decide)
    exact (sound_of_readFrom hread).toPlaced

theorem sound_next {a : Char} (h : s.ReadUpTo before)
    (hsource : source.toList = before ++ a :: text) : (s.next source).2.cursor.Sound source := by
  have hsource' : source.toList = before ++ (cut a text).1.text ++ (cut a text).2 := by
    rw [hsource, List.append_assoc, text_cut]
  rw [next_of_readUpTo h hsource]
  exact sound_within hsource'

/-- The lexeme has at least its first character. -/
theorem le_place_next {a : Char} (h : s.ReadUpTo before)
    (hsource : source.toList = before ++ a :: text) :
    s.cursor.place.byteIdx + a.utf8Size ≤ (s.next source).2.cursor.place.byteIdx := by
  obtain ⟨rest, hrest⟩ := exists_text_cut a text
  rw [next_of_readUpTo h hsource, h.place]
  simp only [within, hrest, String.utf8Len_append, String.utf8Len_cons]
  omega

/-- A lexeme comes to a token, to a diagnostic or to nothing. -/
theorem tokens_next {a : Char} (h : s.ReadUpTo before)
    (hsource : source.toList = before ++ a :: text) :
    (s.next source).2.tokens = s.tokens ∨
      ∃ t, IsToken t.kind t.lexeme.toList ∧ (s.next source).1 = .ok () ∧
        (s.next source).2.tokens = t :: s.tokens := by
  have hbelongs := belongs_cut a text
  rw [next_of_readUpTo h hsource]
  generalize (cut a text).1 = segment at *
  obtain ⟨piece, lexeme⟩ := segment
  cases piece with
  | token kind => exact .inr ⟨_, by simpa [Segment.Belongs] using hbelongs, rfl, rfl⟩
  | trivia => exact .inl rfl
  | malformed fault => exact .inl rfl

/-- **Reading a lexeme is safe**, wherever a run stands with text left. -/
theorem safeCall_of_reached (h : Reached source s) (hleft : s.cursor.atEnd source = false) :
    s.SafeCall source := by
  obtain ⟨front, segment, back, hsplit, hread⟩ := exists_segment_of_reached h hleft
  obtain ⟨a, text, htext, -⟩ := exists_cut_of_split hsplit
  have hsource := text_of_split hsplit
  rw [htext] at hsource
  have htokens := tokens_next hread hsource
  have hpeek : s.cursor.beginLexeme.peek source = some a := by
    have hsource' : source.toList = front.flatMap Segment.text ++ [] ++ a :: text := by
      simpa using hsource
    rw [beginLexeme_of_readUpTo hread]
    exact peek_within hsource'
  have hadvance : s.cursor.beginLexeme.advance source =
      (some a, s.cursor.beginLexeme.skip source) := by simp [skip, advance, hpeek]
  refine ⟨fun run c hhead => sound_of_readFrom (readFrom_of_loopHead hread hsource hhead),
    fun c hlooks => placed_of_looksFrom hread hsource hlooks, ⟨a, _, hadvance, ?_⟩,
    sound_next hread hsource, ⟨a, hpeek, le_place_next hread hsource⟩, ?_, ?_⟩
  · rw [cursor_next_of_advance source hadvance]
    exact readsTo_readOn source a _
  · rcases htokens with hsame | ⟨t, -, hok, ht⟩
    · exact Or.inl hsame
    · exact Or.inr ⟨t, hok, ht⟩
  · intro t ht hkind
    rcases htokens with hsame | ⟨u, hu, -, ht'⟩
    · exact absurd (ht.symm.trans hsame) (List.cons_ne_self t s.tokens)
    · obtain ⟨rfl, -⟩ := List.cons.inj (ht.symm.trans ht')
      exact isValid_quotes (hkind ▸ hu)

end Scanner

/-! ## A whole run -/

/-- No segment is both a token and malformed. -/
theorem length_findings_le (found : List Located) :
    (found.filterMap Located.token?).length + (found.filterMap Located.diagnostic?).length ≤
      found.length := by
  induction found with
  | nil => exact Nat.le_refl 0
  | cons s found ih =>
    rw [List.filterMap_cons, List.filterMap_cons, List.length_cons]
    unfold Located.token? Located.diagnostic? at ih ⊢
    cases s.segment.piece with
    | token kind => exact Nat.add_right_comm _ 1 _ ▸ Nat.succ_le_succ ih
    | trivia => exact Nat.le_succ_of_le ih
    | malformed fault => exact Nat.succ_le_succ ih

namespace Scanner

open Cursor

variable {source : String} {s : Scanner}

theorem sound_of_reached (h : Reached source s) : s.cursor.Sound source := by
  rcases Relation.ReflTransGen.cases_tail h with rfl | ⟨t, hreached, hleft, rfl⟩
  · have hsource : source.toList = [] ++ [] ++ source.toList := rfl
    exact sound_within hsource
  · exact (safeCall_of_reached hreached hleft).sound

/-- A run comes to the end of its text, and ends there. -/
theorem exists_reached_atEnd (source : String) :
    ∃ s, Reached source s ∧ s.cursor.atEnd source = true ∧
      ∀ {σ : Type} (report : σ → Diagnostic → σ) (state : σ),
        (new.run source report state).1 =
          { s with tokens := .endOfInput s.cursor.line :: s.tokens } := by
  obtain ⟨s, hreached, hread⟩ :=
    exists_reached_of_split (List.append_nil (segments source.toList)).symm
  rw [flatMap_text_segments] at hread
  have hend : s.cursor.atEnd source = true :=
    atEnd_of_readUpTo hread (List.append_nil source.toList).symm
  refine ⟨s, hreached, hend, fun report state => ?_⟩
  obtain ⟨told, hrun⟩ := run_of_reached report state hreached
  rw [hrun, run, if_pos hend]

/-- **A run is safe and gets on.** Its cursor is sound wherever it stands between two lexemes, and
every lexeme is read safely. It comes to the end of its text, and what it finds on the way, tokens
and diagnostics together, is no more than there are characters. -/
theorem run_safe (source : String) :
    (∀ s, Reached source s →
        s.cursor.Sound source ∧ (s.cursor.atEnd source = false → s.SafeCall source)) ∧
      (∃ s, Reached source s ∧ s.cursor.atEnd source = true ∧
        ∀ {σ : Type} (report : σ → Diagnostic → σ) (state : σ),
          (new.run source report state).1 =
            { s with tokens := .endOfInput s.cursor.line :: s.tokens }) ∧
      (scan source).proper.length + (scan source).errors.length ≤ source.length := by
  refine ⟨fun s h => ⟨sound_of_reached h, safeCall_of_reached h⟩, exists_reached_atEnd source, ?_⟩
  calc (scan source).proper.length + (scan source).errors.length
      ≤ (located source.toList).length := by
        rw [proper_scan, errors_scan]
        exact length_findings_le _
    _ = (segments source.toList).length := length_locate 1 _
    _ ≤ ((segments source.toList).flatMap Segment.text).length :=
        length_le_length_text (List.Subset.refl _)
    _ = source.length := by rw [flatMap_text_segments, String.length_toList]

/-- In a comment that is not closed, behind a character of two bytes and a line feed. -/
theorem run_safe_in_open_comment :
    LoopHead "/*é\n" new .blockComment ⟨⟨0⟩, ⟨5⟩, 2, 1⟩ ∧
      (⟨⟨0⟩, ⟨5⟩, 2, 1⟩ : Cursor).Sound "/*é\n" := by
  have henters : Enters "/*é\n" '/' ⟨⟨0⟩, ⟨1⟩, 1, 1⟩ .blockComment ⟨⟨0⟩, ⟨2⟩, 1, 1⟩ :=
    .blockComment (d := ⟨⟨0⟩, ⟨1⟩, 1, 1⟩) rfl (by decide +kernel) (by decide +kernel)
  have hletter : Round "/*é\n" .blockComment ⟨⟨0⟩, ⟨2⟩, 1, 1⟩ ⟨⟨0⟩, ⟨4⟩, 1, 1⟩ :=
    ⟨by decide +kernel, by decide +kernel⟩
  have hlineFeed : Round "/*é\n" .blockComment ⟨⟨0⟩, ⟨4⟩, 1, 1⟩ ⟨⟨0⟩, ⟨5⟩, 2, 1⟩ :=
    ⟨by decide +kernel, by decide +kernel⟩
  have hhead : LoopHead "/*é\n" new .blockComment ⟨⟨0⟩, ⟨5⟩, 2, 1⟩ :=
    ⟨'/', _, _, by decide +kernel, henters, .tail (.tail .refl hletter) hlineFeed⟩
  have hcall := ((run_safe "/*é\n").1 new .refl).2 (by decide +kernel)
  exact ⟨hhead, hcall.loopHead _ _ hhead⟩

end Scanner

end LoxLexer
