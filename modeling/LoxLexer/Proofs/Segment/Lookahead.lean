import LoxLexer.Proofs.Segment.LongestMatch

/-!
# What stands behind a segment

A segment ends where it does because of the two characters behind it, whatever they belong to: a
number looks for a point and a digit, everything else at one character or none. So what a segment is
says how it is cut in any other text, as long as what follows there does not carry it on.

## Results

* `Segment.readsOn`: which two characters carry a segment on.
* `stopsBefore_cut`: what is cut is not carried on by what follows.
* `cut_eq_of_stopsBefore`, `segments_text_append`: in front of what does not carry it on, whatever
  belongs to a class is cut.
* `stopsBefore_of_append`, `stopsBefore_append`: stopping in front of a text that is cut short, and
  of one that goes on.
* `segments_exchange`, `segments_front`: the first segments of a text in front of another text, and
  by themselves.
* `segments_flatMap_iff`: when segments written next to each other are the segments of their text.
* `segments_append_of_split`, `segments_append_of_open`: the segments of a text that goes on.
-/

namespace LoxLexer

/-- Whether a token goes on with the next character, which may depend on the one behind it. -/
def Kind.readsOn (kind : Kind) (lexeme : List Char) (next second : Option Char) : Bool :=
  match kind with
  | .bang | .equal | .less | .greater => next = some '='
  | .slash => next = some '/' || next = some '*'
  | .keyword _ | .identifier => next.any isWordPart
  | .number =>
    next.any Char.isDigit || (next = some '.' && second.any Char.isDigit && '.' ∉ lexeme)
  | _ => false

namespace Segment

/-- Whether a segment goes on with the next character. Line comments go on up to the end of the
line, and what is open takes in everything. -/
def readsOn (s : Segment) (next second : Option Char) : Bool :=
  match s.piece with
  | .token kind => kind.readsOn s.text next second
  | .trivia => ['/', '/'] <+: s.text && next.any (· ≠ '\n')
  | .malformed fault => fault.isUnterminated && next.isSome

/-- Whether the segment is a string or a block comment that the end of the text cuts off. -/
def isOpen (s : Segment) : Bool := s.fault?.any Fault.isUnterminated

/-- What follows does not carry the segment on. -/
def StopsBefore (s : Segment) (after : List Char) : Prop :=
  s.readsOn after.head? after.tail.head? = false

end Segment

theorem stopsAt_iff {p : Char → Bool} {rest : List Char} :
    StopsAt p rest ↔ rest.head?.any p = false := by
  cases rest <;> simp [StopsAt]

/-! ## Kinds that are not carried on -/

section
variable {c : Char} {kind alone followed : Kind}

theorem readsOn_of_mark (h : (c, kind) ∈ Opening.marks) (lexeme : List Char)
    (next second : Option Char) : kind.readsOn lexeme next second = false := by
  simp only [Opening.marks, List.mem_cons, Prod.mk.injEq, List.not_mem_nil, or_false] at h
  rcases h with ⟨-, rfl⟩ | ⟨-, rfl⟩ | ⟨-, rfl⟩ | ⟨-, rfl⟩ | ⟨-, rfl⟩ | ⟨-, rfl⟩ | ⟨-, rfl⟩ |
    ⟨-, rfl⟩ | ⟨-, rfl⟩ | ⟨-, rfl⟩ <;> rfl

theorem readsOn_of_equalMark (h : (c, alone, followed) ∈ Opening.equalMarks) (lexeme : List Char)
    (next second : Option Char) :
    alone.readsOn lexeme next second = decide (next = some '=') ∧
      followed.readsOn lexeme next second = false := by
  simp only [Opening.equalMarks, List.mem_cons, Prod.mk.injEq, List.not_mem_nil, or_false] at h
  rcases h with ⟨-, rfl, rfl⟩ | ⟨-, rfl, rfl⟩ | ⟨-, rfl, rfl⟩ | ⟨-, rfl, rfl⟩ <;> exact ⟨rfl, rfl⟩

theorem readsOn_ofWord (word lexeme : List Char) (next second : Option Char) :
    (Kind.ofWord word).readsOn lexeme next second = next.any isWordPart := by
  unfold Kind.ofWord
  cases Keyword.ofWord? (String.ofList word) <;> rfl

/-- A number stops in front of anything but a digit, or its first point with a digit behind. -/
theorem readsOn_number_iff {lexeme after : List Char} :
    Kind.number.readsOn lexeme after.head? after.tail.head? = false ↔
      StopsAt Char.isDigit after ∧
        ('.' ∉ lexeme → ¬ ∃ d rest, after = '.' :: d :: rest ∧ d.isDigit = true) := by
  rw [stopsAt_iff]
  match after with
  | [] => simp [Kind.readsOn]
  | [a] => simp [Kind.readsOn]
  | a :: b :: rest =>
    simp only [Kind.readsOn, List.head?_cons, List.tail_cons, Option.any_some, Bool.or_eq_false_iff]
    refine and_congr_right fun _ => ?_
    by_cases hpoint : '.' ∈ lexeme <;> simp [hpoint]

end

/-! ## What is cut is not carried on -/

theorem stopsBefore_cut_slash (text : List Char) :
    (cut '/' text).1.StopsBefore (cut '/' text).2 := by
  by_cases hline : text.head? = some '/'
  · obtain ⟨rest, rfl⟩ := List.head?_eq_some_iff.mp hline
    have hstop := stopsAt_iff.mp (stopsAt_dropWhile (· ≠ '\n') rest)
    rw [cut_lineComment]
    simp only [Segment.StopsBefore, Segment.readsOn, hstop, Bool.and_false]
  · by_cases hblock : text.head? = some '*'
    · obtain ⟨rest, rfl⟩ := List.head?_eq_some_iff.mp hblock
      cases hclose : closeComment [] rest with
      | none =>
        rw [cut_openComment hclose]
        rfl
      | some found =>
        obtain ⟨comment, after⟩ := found
        rw [cut_blockComment hclose]
        simp [Segment.StopsBefore, Segment.readsOn]
    · rw [cut_slash hline hblock]
      simp [Segment.StopsBefore, Segment.readsOn, Kind.readsOn, hline, hblock]

theorem stopsBefore_cut_number {c : Char} (hc : Opening.of c = .digit) (text : List Char) :
    (cut c text).1.StopsBefore (cut c text).2 := by
  have hdigit : c.isDigit = true := Opening.announces_of_eq hc
  rw [cut_number hc]
  refine readsOn_number_iff.mpr ?_
  by_cases hpoint : ∃ d rest, text.dropWhile Char.isDigit = '.' :: d :: rest ∧ d.isDigit = true
  · obtain ⟨d, rest, hrest, hd⟩ := hpoint
    rw [restOfNumber_of_fraction hrest hd]
    exact ⟨stopsAt_dropWhile _ rest, fun hnone => absurd (by simp) hnone⟩
  · rw [restOfNumber_of_whole hpoint]
    exact ⟨stopsAt_dropWhile _ text, fun _ => hpoint⟩

/-- **What is cut stops where it does.** -/
theorem stopsBefore_cut (c : Char) (text : List Char) :
    (cut c text).1.StopsBefore (cut c text).2 := by
  cases hopen : Opening.of c with
  | mark kind =>
    rw [cut_mark hopen]
    exact readsOn_of_mark (Opening.announces_of_eq hopen) _ _ _
  | withEqual alone followed =>
    have hmark : (c, alone, followed) ∈ Opening.equalMarks := Opening.announces_of_eq hopen
    by_cases heq : text.head? = some '='
    · obtain ⟨rest, rfl⟩ := List.head?_eq_some_iff.mp heq
      rw [cut_followed hopen]
      exact (readsOn_of_equalMark hmark _ _ _).2
    · rw [cut_alone hopen heq]
      exact (readsOn_of_equalMark hmark _ _ _).1.trans (decide_eq_false heq)
  | slash =>
    obtain rfl : c = '/' := Opening.announces_of_eq hopen
    exact stopsBefore_cut_slash text
  | blank | lineFeed =>
    rw [cut_blank (by simp [hopen])]
    simp [Segment.StopsBefore, Segment.readsOn]
  | quote =>
    obtain rfl : c = '"' := Opening.announces_of_eq hopen
    cases hd : text.dropWhile (· ≠ '"') with
    | nil =>
      rw [cut_openString hd]
      rfl
    | cons close after =>
      rw [cut_string hd]
      rfl
  | digit => exact stopsBefore_cut_number hopen text
  | wordStart =>
    rw [cut_word hopen]
    exact (readsOn_ofWord _ _ _ _).trans (stopsAt_iff.mp (stopsAt_dropWhile isWordPart text))
  | stray =>
    rw [cut_stray hopen]
    rfl

/-! ## What is not carried on is cut -/

section
variable {c : Char} {lexeme after text : List Char}

theorem restOfNumber_append_of_whole {digits : List Char} (h : ∀ a ∈ digits, a.isDigit = true)
    (hstop : StopsAt Char.isDigit after)
    (hpoint : ¬ ∃ d rest, after = '.' :: d :: rest ∧ d.isDigit = true) :
    restOfNumber (digits ++ after) = (digits, after) := by
  have hdrop := dropWhile_append_of_stop h hstop
  rw [restOfNumber_of_whole (by rwa [hdrop]), hdrop, takeWhile_append_of_stop h hstop]

theorem restOfNumber_append_of_fraction {digits places : List Char}
    (h : ∀ a ∈ digits, a.isDigit = true) (hne : places ≠ [])
    (hp : ∀ a ∈ places, a.isDigit = true) (hstop : StopsAt Char.isDigit after) :
    restOfNumber (digits ++ '.' :: (places ++ after)) = (digits ++ '.' :: places, after) := by
  obtain ⟨d, places, rfl⟩ := List.exists_cons_of_ne_nil hne
  have hpoint := Decimal.stopsAt_isDigit_point (d :: (places ++ after))
  have hplaces : ∀ a ∈ places, a.isDigit = true := fun a ha => hp a (List.mem_cons_of_mem d ha)
  have hdrop := dropWhile_append_of_stop h hpoint
  rw [List.cons_append, restOfNumber_of_fraction hdrop (hp d List.mem_cons_self),
    takeWhile_append_of_stop h hpoint, takeWhile_append_of_stop hplaces hstop,
    dropWhile_append_of_stop hplaces hstop]

theorem cut_word_append (hc : isWordStart c = true) (hrun : ∀ a ∈ lexeme, isWordPart a = true)
    (hstop : StopsAt isWordPart after) :
    cut c (lexeme ++ after) = (⟨.token (.ofWord (c :: lexeme)), c :: lexeme⟩, after) := by
  rw [cut_word (Opening.of_eq_of_announces (o := .wordStart) hc (by simp)),
    takeWhile_append_of_stop hrun hstop, dropWhile_append_of_stop hrun hstop]

/-- **A token that is not carried on is cut.** -/
theorem cut_token {kind : Kind} (h : IsToken kind lexeme) (htext : lexeme ++ after = c :: text)
    (hstop : kind.readsOn lexeme after.head? after.tail.head? = false) :
    cut c text = (⟨.token kind, lexeme⟩, after) := by
  cases h with
  | mark hm =>
    obtain ⟨rfl, rfl⟩ := List.cons.inj htext
    rw [cut_mark (Opening.of_eq_of_announces (o := .mark kind) hm (by simp))]
    rfl
  | alone hm =>
    obtain ⟨rfl, rfl⟩ := List.cons.inj htext
    have hne := of_decide_eq_false ((readsOn_of_equalMark hm _ _ _).1.symm.trans hstop)
    exact cut_alone (Opening.of_eq_of_announces hm (by simp)) hne
  | followed hm =>
    obtain ⟨rfl, rfl⟩ := List.cons.inj htext
    exact cut_followed (Opening.of_eq_of_announces hm (by simp))
  | slash =>
    obtain ⟨rfl, rfl⟩ := List.cons.inj htext
    simp only [Kind.readsOn, Bool.or_eq_false_iff, decide_eq_false_iff_not] at hstop
    exact cut_slash hstop.1 hstop.2
  | @whole digits hne hall =>
    obtain ⟨d, digits, rfl⟩ := List.exists_cons_of_ne_nil hne
    rw [List.cons_append] at htext
    obtain ⟨rfl, rfl⟩ := List.cons.inj htext
    obtain ⟨hdigit, hpoint⟩ := readsOn_number_iff.mp hstop
    have hnone : '.' ∉ d :: digits := fun hmem => absurd (hall '.' hmem) (by decide)
    have hopen := Opening.of_eq_of_announces (o := .digit) (hall d List.mem_cons_self) (by simp)
    rw [cut_number hopen, restOfNumber_append_of_whole
      (fun a ha => hall a (List.mem_cons_of_mem d ha)) hdigit (hpoint hnone)]
  | @fraction whole places hne hall hpne hpall =>
    obtain ⟨d, whole, rfl⟩ := List.exists_cons_of_ne_nil hne
    rw [List.cons_append, List.cons_append, List.append_assoc, List.cons_append] at htext
    obtain ⟨rfl, rfl⟩ := List.cons.inj htext
    have hdigit := (readsOn_number_iff.mp hstop).1
    have hopen := Opening.of_eq_of_announces (o := .digit) (hall d List.mem_cons_self) (by simp)
    rw [cut_number hopen, restOfNumber_append_of_fraction
      (fun a ha => hall a (List.mem_cons_of_mem d ha)) hpne hpall hdigit]
    rfl
  | keyword k =>
    obtain ⟨a, rest, hword, ha, hrest⟩ := exists_word k
    rw [← ofWord_keyword k, hword] at hstop ⊢
    rw [hword] at htext
    obtain ⟨rfl, rfl⟩ := List.cons.inj htext
    rw [readsOn_ofWord] at hstop
    exact cut_word_append ha hrest (stopsAt_iff.mpr hstop)
  | @identifier a rest ha hrest hno =>
    obtain ⟨rfl, rfl⟩ := List.cons.inj htext
    rw [← ofWord_identifier hno]
    exact cut_word_append ha hrest (stopsAt_iff.mpr hstop)
  | @string body hbody =>
    have hrun : ∀ a ∈ body, decide (a ≠ '"') = true := fun a ha => by simpa using hbody a ha
    have hquote : StopsAt (fun a => decide (a ≠ '"')) ('"' :: after) := by simp [StopsAt]
    rw [List.append_assoc, List.singleton_append, List.cons_append] at htext
    obtain ⟨rfl, rfl⟩ := List.cons.inj htext
    rw [cut_string (dropWhile_append_of_stop hrun hquote), takeWhile_append_of_stop hrun hquote]

theorem cut_trivia (h : IsTrivia lexeme) (htext : lexeme ++ after = c :: text)
    (hstop : (⟨.trivia, lexeme⟩ : Segment).StopsBefore after) :
    cut c text = (⟨.trivia, lexeme⟩, after) := by
  cases h with
  | @blank b hm =>
    obtain ⟨rfl, rfl⟩ := List.cons.inj htext
    simp only [List.mem_cons, List.not_mem_nil, or_false] at hm
    exact cut_blank (by rcases hm with rfl | rfl | rfl | rfl <;> decide)
  | @lineComment body hbody =>
    have hrun : ∀ a ∈ body, decide (a ≠ '\n') = true := fun a ha => by simpa using hbody a ha
    have hline : StopsAt (fun a => decide (a ≠ '\n')) after := by
      rw [stopsAt_iff]
      simpa [Segment.StopsBefore, Segment.readsOn] using hstop
    rw [List.cons_append, List.cons_append] at htext
    obtain ⟨rfl, rfl⟩ := List.cons.inj htext
    rw [cut_lineComment, takeWhile_append_of_stop hrun hline,
      dropWhile_append_of_stop hrun hline]
  | @blockComment body hbody =>
    have hclose := closeComment_of_first hbody [] after
    have htext' : '/' :: '*' :: (body ++ '*' :: '/' :: after) = c :: text := by
      simpa [closer] using htext
    obtain ⟨rfl, rfl⟩ := List.cons.inj htext'
    rw [cut_blockComment hclose]
    rfl

/-- **Whatever belongs to a class is cut**, in front of what does not carry it on. -/
theorem cut_eq_of_stopsBefore {s : Segment} (h : s.Belongs after) (hstop : s.StopsBefore after)
    (htext : s.text ++ after = c :: text) : cut c text = (s, after) := by
  obtain ⟨piece, lexeme⟩ := s
  cases piece with
  | token kind => exact cut_token h htext hstop
  | trivia => exact cut_trivia h htext hstop
  | malformed fault =>
    have hs := malformed_eq_cut h htext
    have happ := text_cut c text
    rw [← hs, ← htext] at happ
    exact Prod.ext hs.symm (List.append_cancel_left happ)

end

theorem segments_text_append {s : Segment} {after : List Char} (hne : s.text ≠ [])
    (h : s.Belongs after) (hstop : s.StopsBefore after) :
    segments (s.text ++ after) = s :: segments after := by
  obtain ⟨c, lexeme, hlexeme⟩ := List.exists_cons_of_ne_nil hne
  have htext : s.text ++ after = c :: (lexeme ++ after) := by rw [hlexeme]; rfl
  rw [htext, segments_cons, cut_eq_of_stopsBefore h hstop htext]

/-! ## White space -/

/-- The characters that are white space. -/
def blanks : List Char := [' ', '\r', '\t', '\n']

theorem not_isWordPart_of_blank {b : Char} (hb : b ∈ blanks) : ¬ isWordPart b = true := by
  simp only [blanks, List.mem_cons, List.not_mem_nil, or_false] at hb
  rcases hb with rfl | rfl | rfl | rfl <;> decide

/-- Strings are the only tokens with white space in them. -/
theorem blank_not_mem_of_isToken {b : Char} (hb : b ∈ blanks) {kind : Kind} {lexeme : List Char}
    (h : IsToken kind lexeme) (hkind : kind ≠ .string) : b ∉ lexeme := by
  have hword : ∀ word : List Char, (∀ a ∈ word, isWordPart a = true) → b ∉ word :=
    fun word hall hmem => not_isWordPart_of_blank hb (hall b hmem)
  have hdigits : ∀ digits : List Char, (∀ a ∈ digits, a.isDigit = true) → b ∉ digits :=
    fun digits hall => hword digits fun a ha => by simp [isWordPart, hall a ha]
  have hother : ∀ c, c ∉ blanks → b ≠ c := by
    rintro c hc rfl
    exact hc hb
  have hmarks : ∀ p ∈ Opening.marks, p.1 ∉ blanks := by decide
  have hequal : ∀ p ∈ Opening.equalMarks, p.1 ∉ blanks := by decide
  cases h with
  | mark hm => simpa using hother _ (hmarks _ hm)
  | alone hm => simpa using hother _ (hequal _ hm)
  | followed hm => simpa using ⟨hother _ (hequal _ hm), hother '=' (by decide)⟩
  | slash => simpa using hother '/' (by decide)
  | whole _ hall => exact hdigits _ hall
  | fraction _ hall _ hplaces =>
    rw [List.mem_append, List.mem_cons, not_or, not_or]
    exact ⟨hdigits _ hall, hother '.' (by decide), hdigits _ hplaces⟩
  | keyword k =>
    obtain ⟨c, rest, hk, hc, hrest⟩ := exists_word k
    rw [hk]
    exact hword _ (List.forall_mem_cons.mpr ⟨by simp [isWordPart, hc], hrest⟩)
  | identifier hc hrest _ =>
    exact hword _ (List.forall_mem_cons.mpr ⟨by simp [isWordPart, hc], hrest⟩)
  | string => exact absurd rfl hkind

/-! ## Other texts behind a segment -/

theorem Kind.readsOn_blank {c : Char} (hc : c ∈ blanks) (kind : Kind) (lexeme : List Char)
    (second : Option Char) : kind.readsOn lexeme (some c) second = false := by
  simp only [blanks, List.mem_cons, List.not_mem_nil, or_false] at hc
  unfold Kind.readsOn
  split <;> rcases hc with rfl | rfl | rfl | rfl <;> rfl

section
variable {s : Segment} {next second : Option Char}

theorem readsOn_none : s.readsOn none second = false := by
  unfold Segment.readsOn Kind.readsOn
  split
  · split <;> rfl
  · simp
  · simp

/-- The second character matters to a number in front of a point only. -/
theorem readsOn_of_ne_point (h : next ≠ some '.') (other : Option Char) :
    s.readsOn next second = s.readsOn next other := by
  unfold Segment.readsOn Kind.readsOn
  simp only [h, decide_false, Bool.false_and]

/-- The second character carries a segment on as a digit only. -/
theorem readsOn_of_not_isDigit {other : Option Char} (hother : other.any Char.isDigit = false)
    (h : s.readsOn next second = false) : s.readsOn next other = false := by
  obtain ⟨piece, lexeme⟩ := s
  cases piece with
  | token kind =>
    by_cases hkind : kind = .number
    · subst hkind
      simp only [Segment.readsOn, Kind.readsOn, Bool.or_eq_false_iff] at h ⊢
      exact ⟨h.1, by simp [hother]⟩
    · cases kind <;> first | exact h | exact absurd rfl hkind
  | trivia | malformed => exact h

theorem readsOn_lineFeed (h : s.isOpen = false) : s.readsOn (some '\n') second = false := by
  obtain ⟨piece, lexeme⟩ := s
  cases piece with
  | token kind => exact Kind.readsOn_blank (by decide) kind lexeme second
  | trivia => simp [Segment.readsOn]
  | malformed fault =>
    have hfault : fault.isUnterminated = false := h
    simp [Segment.readsOn, hfault]

end

section
variable {s : Segment} {after : List Char}

/-- What stops in front of a text stops in front of as much of it as is left. -/
theorem stopsBefore_of_append {rest : List Char} (h : s.StopsBefore (after ++ rest)) :
    s.StopsBefore after := by
  match after with
  | [] => exact readsOn_none
  | [a] => exact readsOn_of_not_isDigit rfl h
  | a :: b :: after => exact h

/-- What stops in front of a text stops in front of a longer one. A point by itself is left out,
which a digit behind it may turn into part of a number. -/
theorem stopsBefore_append (hne : after ≠ []) (hpoint : after ≠ ['.']) (h : s.StopsBefore after)
    (rest : List Char) : s.StopsBefore (after ++ rest) := by
  match after with
  | [] => exact absurd rfl hne
  | [a] => exact (readsOn_of_ne_point (by simpa using hpoint) _).trans h
  | a :: b :: after => exact h

/-- A line feed stops what the end of the text stops. -/
theorem stopsBefore_append_lineFeed (hopen : s.isOpen = false) (h : s.StopsBefore after)
    (rest : List Char) : s.StopsBefore (after ++ '\n' :: rest) := by
  match after with
  | [] => exact readsOn_lineFeed hopen
  | [a] => exact readsOn_of_not_isDigit rfl h
  | a :: b :: after => exact h

/-- White space stops a token. -/
theorem stopsBefore_of_blank {kind : Kind} {lexeme : List Char}
    (h : ∀ c ∈ after.head?, c ∈ blanks) :
    (⟨.token kind, lexeme⟩ : Segment).StopsBefore after := by
  match after with
  | [] => exact readsOn_none
  | a :: after => exact Kind.readsOn_blank (h a rfl) kind lexeme after.head?

end

/-! ## Segments in front of another text -/

section
variable {s : Segment} {after : List Char}

/-- Only what is open depends on what follows, of which there is nothing. -/
theorem belongs_cases (h : s.Belongs after) :
    s.isOpen = false ∧ (∀ other, s.Belongs other) ∨ s.isOpen = true ∧ after = [] := by
  obtain ⟨piece, lexeme⟩ := s
  cases piece with
  | token | trivia => exact Or.inl ⟨rfl, fun _ => h⟩
  | malformed fault =>
    have hmalformed : IsMalformed fault lexeme after := h
    cases hmalformed with
    | stray hno hnone => exact Or.inl ⟨rfl, fun _ => .stray hno hnone⟩
    | string | blockComment => exact Or.inr ⟨rfl, rfl⟩

theorem belongs_of_closed (hopen : s.isOpen = false) (h : s.Belongs after) (other : List Char) :
    s.Belongs other := by
  rcases belongs_cases h with ⟨-, hall⟩ | ⟨htrue, -⟩
  · exact hall other
  · exact absurd (hopen.symm.trans htrue) Bool.false_ne_true

theorem eq_nil_of_isOpen (hopen : s.isOpen = true) (h : s.Belongs after) : after = [] := by
  rcases belongs_cases h with ⟨hfalse, -⟩ | ⟨-, hnil⟩
  · exact absurd (hfalse.symm.trans hopen) Bool.false_ne_true
  · exact hnil

/-- What is open starts with a quote or a slash. -/
theorem ne_nil_of_isOpen (hopen : s.isOpen = true) (h : s.Belongs after) :
    s.text ≠ [] ∧ s.text ≠ ['.'] := by
  obtain ⟨piece, lexeme⟩ := s
  cases piece with
  | token | trivia => cases hopen
  | malformed fault =>
    have hmalformed : IsMalformed fault lexeme after := h
    cases hmalformed with
    | stray => cases hopen
    | string | blockComment => simp

theorem belongs_of_append {rest : List Char} (h : s.Belongs (after ++ rest)) : s.Belongs after := by
  cases hopen : s.isOpen with
  | false => exact belongs_of_closed hopen h after
  | true =>
    obtain ⟨rfl, rfl⟩ := List.append_eq_nil_iff.mp (eq_nil_of_isOpen hopen h)
    exact h

end

/-- What follows the first segments of a text is divided by itself. -/
theorem segments_of_split {text : List Char} {front back : List Segment}
    (hsplit : segments text = front ++ back) : segments (back.flatMap Segment.text) = back := by
  induction front generalizing text with
  | nil =>
    rw [List.nil_append] at hsplit
    rw [← hsplit, flatMap_text_segments]
  | cons s front ih =>
    cases text with
    | nil => simp at hsplit
    | cons c text =>
      rw [segments_cons, List.cons_append] at hsplit
      exact ih (List.cons.inj hsplit).2

section
variable {text : List Char} {front back : List Segment} {s : Segment}

theorem text_of_split (hsplit : segments text = front ++ back) :
    text = front.flatMap Segment.text ++ back.flatMap Segment.text := by
  rw [← List.flatMap_append, ← hsplit, flatMap_text_segments]

/-- Each segment of a text is cut where it stands. -/
theorem exists_cut_of_split (hsplit : segments text = front ++ s :: back) :
    ∃ c rest, (s :: back).flatMap Segment.text = c :: rest ∧
      cut c rest = (s, back.flatMap Segment.text) := by
  have hrest := segments_of_split hsplit
  cases htext : (s :: back).flatMap Segment.text with
  | nil =>
    rw [htext, segments_nil] at hrest
    cases hrest
  | cons c rest =>
    rw [htext, segments_cons] at hrest
    obtain ⟨hs, hback⟩ := List.cons.inj hrest
    refine ⟨c, rest, rfl, Prod.ext hs ?_⟩
    rw [← hback, flatMap_text_segments]

/-- A segment of a text belongs to its class and stops in front of the segments behind it. -/
theorem belongs_of_split (hsplit : segments text = front ++ s :: back) :
    s.Belongs (back.flatMap Segment.text) ∧ s.StopsBefore (back.flatMap Segment.text) := by
  obtain ⟨c, rest, -, hcut⟩ := exists_cut_of_split hsplit
  have hbelongs := belongs_cut c rest
  have hstop := stopsBefore_cut c rest
  rw [hcut] at hbelongs hstop
  exact ⟨hbelongs, hstop⟩

/-- What is open is the last segment of its text. -/
theorem isOpen_of_split (hsplit : segments text = front ++ s :: back) (hback : back ≠ []) :
    s.isOpen = false := by
  rw [← Bool.not_eq_true]
  intro hopen
  have hnil := eq_nil_of_isOpen hopen (belongs_of_split hsplit).1
  have hsplit' : segments text = front ++ [s] ++ back := by simpa using hsplit
  have hrest := segments_of_split hsplit'
  rw [hnil, segments_nil] at hrest
  exact hback hrest.symm

/-- Nothing stands behind what is open. -/
theorem eq_nil_of_split_of_isOpen (hsplit : segments text = front ++ s :: back)
    (hopen : s.isOpen = true) : back = [] := by
  by_contra hback
  exact absurd ((isOpen_of_split hsplit hback).symm.trans hopen) Bool.false_ne_true

theorem isOpen_of_mem_front (hsplit : segments text = front ++ back) (hback : back ≠ [])
    (hs : s ∈ front) : s.isOpen = false := by
  obtain ⟨before, after, rfl⟩ := List.append_of_mem hs
  have hsplit' : segments text = before ++ s :: (after ++ back) := by simpa using hsplit
  exact isOpen_of_split hsplit' (by simp [hback])

end

/-- **The first segments of a text are cut in front of another text**, if none of them is carried
on by what comes instead. -/
theorem segments_exchange {text tail : List Char} {front back : List Segment}
    (hsplit : segments text = front ++ back)
    (hkeep : ∀ s ∈ front, ∀ between,
      s.Belongs (between ++ back.flatMap Segment.text) →
      s.StopsBefore (between ++ back.flatMap Segment.text) →
      s.Belongs (between ++ tail) ∧ s.StopsBefore (between ++ tail)) :
    segments (front.flatMap Segment.text ++ tail) = front ++ segments tail := by
  induction front generalizing text with
  | nil => rfl
  | cons s front ih =>
    rw [List.cons_append] at hsplit
    have hmem : s ∈ segments text := by rw [hsplit]; exact List.mem_cons_self
    have hrest := @segments_of_split text [s] (front ++ back) hsplit
    obtain ⟨hbelongs, hstop⟩ := @belongs_of_split text [] (front ++ back) s hsplit
    rw [List.flatMap_append] at hbelongs hstop
    obtain ⟨hbelongs, hstop⟩ := hkeep s List.mem_cons_self _ hbelongs hstop
    rw [List.flatMap_cons, List.append_assoc,
      segments_text_append (text_ne_nil_of_mem_segments hmem) hbelongs hstop,
      ih hrest fun t ht => hkeep t (List.mem_cons_of_mem _ ht), List.cons_append]

/-- **A text may be cut between two segments**: both parts are divided as they are in the whole. -/
theorem segments_front {text : List Char} {front back : List Segment}
    (hsplit : segments text = front ++ back) : segments (front.flatMap Segment.text) = front := by
  have hfront : segments (front.flatMap Segment.text ++ []) = front ++ segments [] := by
    refine segments_exchange hsplit fun s _ between hbelongs hstop => ?_
    rw [List.append_nil]
    exact ⟨belongs_of_append hbelongs, stopsBefore_of_append hstop⟩
  rwa [List.append_nil, segments_nil, List.append_nil] at hfront

/-! ## Segments written next to each other -/

/-- **Segments written next to each other are the segments of their text** if each stops in front of
what follows it, and not otherwise. -/
theorem segments_flatMap_iff {division : List Segment}
    (h : ∀ s ∈ division, s.text ≠ [] ∧ ∀ after, s.Belongs after) :
    segments (division.flatMap Segment.text) = division ↔
      ∀ (i : Nat) (hi : i < division.length),
        division[i].StopsBefore ((division.drop (i + 1)).flatMap Segment.text) := by
  constructor
  · intro hsegments i hi
    have hsplit := (List.take_append_drop i division).symm
    rw [List.drop_eq_getElem_cons hi] at hsplit
    exact (belongs_of_split (hsegments.trans hsplit)).2
  · intro hstop
    induction division with
    | nil => exact segments_nil
    | cons s division ih =>
      obtain ⟨⟨hne, hbelongs⟩, hrest⟩ := List.forall_mem_cons.mp h
      have hfirst : s.StopsBefore (division.flatMap Segment.text) :=
        hstop 0 (Nat.succ_pos division.length)
      have hbehind := ih hrest fun i hi => hstop (i + 1) (Nat.succ_lt_succ hi)
      rw [List.flatMap_cons, segments_text_append hne (hbelongs _) hfirst, hbehind]

/-! ## Texts that go on -/

section
variable {text : List Char} {front back : List Segment}

/-- **Segments stay when the text goes on**, if anything but a single point is behind them. -/
theorem segments_append_of_split (hsplit : segments text = front ++ back) (hne : back ≠ [])
    (hpoint : back.flatMap Segment.text ≠ ['.']) (rest : List Char) :
    segments (text ++ rest) = front ++ segments (back.flatMap Segment.text ++ rest) := by
  obtain ⟨s, back, rfl⟩ := List.exists_cons_of_ne_nil hne
  obtain ⟨c, after, hback, -⟩ := exists_cut_of_split hsplit
  have htext : text ++ rest =
      front.flatMap Segment.text ++ ((s :: back).flatMap Segment.text ++ rest) := by
    rw [← List.append_assoc, ← text_of_split hsplit]
  rw [htext]
  refine segments_exchange hsplit fun t ht between hbelongs hstop => ?_
  refine ⟨belongs_of_closed (isOpen_of_mem_front hsplit hne ht) hbelongs _, ?_⟩
  rw [hback] at hpoint hstop ⊢
  rw [← List.append_assoc]
  refine stopsBefore_append (by simp) (fun hdot => ?_) hstop rest
  rcases List.append_eq_singleton_iff.mp hdot with ⟨-, hdot⟩ | ⟨-, hnil⟩
  · exact hpoint hdot
  · exact List.cons_ne_nil c after hnil

/-- **The open segment of a text takes in what is appended**, and becomes whatever it is then. The
segments in front of it stay. -/
theorem segments_append_of_open {s t : Segment} {more : List Char}
    (hsplit : segments text = front ++ [s]) (hopen : s.isOpen = true) (ht : t.Belongs [])
    (htext : t.text = s.text ++ more) : segments (text ++ more) = front ++ [t] := by
  have hbelongs := (belongs_of_split hsplit).1
  have hne : t.text ≠ [] := by
    rw [htext]
    exact List.append_ne_nil_of_left_ne_nil (ne_nil_of_isOpen hopen hbelongs).1 more
  have hpoint : [s].flatMap Segment.text ≠ ['.'] := by
    rw [List.flatMap_singleton]
    exact (ne_nil_of_isOpen hopen hbelongs).2
  have hlast := segments_text_append hne ht readsOn_none
  rw [List.append_nil, segments_nil, htext] at hlast
  rw [segments_append_of_split hsplit (List.cons_ne_nil s []) hpoint, List.flatMap_singleton, hlast]

end

end LoxLexer
