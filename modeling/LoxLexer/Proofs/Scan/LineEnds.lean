import LoxLexer.Proofs.Scan.Blank

/-!
# Line ends

A carriage return in front of every line feed changes no token but the strings that reach over a
line end, which have it in them, and nothing that is found wrong. Between segments it is white
space; in strings and comments it is one more character; and behind a line comment it is the end of
the comment. Everything else stops in front of it as it stops in front of the line feed.

## Results

* `belongs_crlf`, `stopsBefore_crlf`: what a segment is, and where it stops, in the changed text.
* `findings_crlf`: the tokens and malformed segments of the changed text.
* `scan_crlf`: its scan.
-/

namespace LoxLexer

/-! ## The changed text -/

/-- A text with a carriage return in front of every line feed. -/
def crlf (text : List Char) : List Char :=
  text.flatMap fun c => if c = '\n' then ['\r', '\n'] else [c]

section
variable {c : Char} {text : List Char}

@[simp] theorem crlf_nil : crlf [] = [] := rfl

@[simp] theorem crlf_cons_lineFeed : crlf ('\n' :: text) = '\r' :: '\n' :: crlf text := rfl

@[simp] theorem crlf_cons_of_ne (h : c ≠ '\n') : crlf (c :: text) = c :: crlf text := by
  simp [crlf, h]

@[simp] theorem crlf_append (text rest : List Char) : crlf (text ++ rest) = crlf text ++ crlf rest :=
  List.flatMap_append

theorem crlf_ne_nil (h : text ≠ []) : crlf text ≠ [] := by
  obtain ⟨c, text, rfl⟩ := List.exists_cons_of_ne_nil h
  by_cases hc : c = '\n'
  · subst hc
    exact List.cons_ne_nil _ _
  · rw [crlf_cons_of_ne hc]
    exact List.cons_ne_nil _ _

theorem crlf_of_not_mem (h : '\n' ∉ text) : crlf text = text := by
  induction text with
  | nil => rfl
  | cons c text ih =>
    rw [List.mem_cons, not_or] at h
    rw [crlf_cons_of_ne (Ne.symm h.1), ih h.2]

theorem mem_crlf {a : Char} (h : a ∈ crlf text) : a = '\r' ∨ a ∈ text := by
  obtain ⟨c, hc, ha⟩ := List.mem_flatMap.mp h
  split at ha
  · next hlf =>
    simp only [List.mem_cons, List.not_mem_nil, or_false] at ha
    rcases ha with rfl | rfl
    · exact Or.inl rfl
    · exact Or.inr (hlf ▸ hc)
  · obtain rfl := List.mem_singleton.mp ha
    exact Or.inr hc

theorem lineFeeds_crlf (text : List Char) : lineFeeds (crlf text) = lineFeeds text := by
  induction text with
  | nil => rfl
  | cons c text ih =>
    by_cases hc : c = '\n'
    · subst hc
      rw [crlf_cons_lineFeed, lineFeeds_cons, lineFeeds_cons, lineFeeds_cons, ih]
      simp
    · rw [crlf_cons_of_ne hc, lineFeeds_cons, lineFeeds_cons, ih]

/-- A slash comes first in both texts or in neither. -/
theorem head?_crlf_slash : (crlf text).head? = some '/' ↔ text.head? = some '/' := by
  cases text with
  | nil => rfl
  | cons c text =>
    by_cases hc : c = '\n'
    · subst hc
      simp
    · rw [crlf_cons_of_ne hc]
      rfl

/-- No closer of a comment comes in or is lost. -/
theorem closer_infix_crlf_iff : closer <:+: crlf text ↔ closer <:+: text := by
  induction text with
  | nil => rfl
  | cons c text ih =>
    by_cases hc : c = '\n'
    · subst hc
      rw [crlf_cons_lineFeed, closer_infix_cons_iff, closer_infix_cons_iff, closer_infix_cons_iff, ih]
      simp
    · rw [crlf_cons_of_ne hc, closer_infix_cons_iff, closer_infix_cons_iff, ih, head?_crlf_slash]

end

/-! ## Segments in the changed text -/

/-- The segment of a changed text. -/
def Segment.crlf (s : Segment) : Segment := ⟨s.piece, LoxLexer.crlf s.text⟩

theorem crlf_of_isToken {kind : Kind} {lexeme : List Char} (h : IsToken kind lexeme)
    (hkind : kind ≠ .string) : crlf lexeme = lexeme :=
  crlf_of_not_mem (blank_not_mem_of_isToken (by decide) h hkind)

/-- Of all tokens only strings change, and they stay strings. -/
theorem isToken_crlf {kind : Kind} {lexeme : List Char} (h : IsToken kind lexeme) :
    IsToken kind (crlf lexeme) := by
  by_cases hkind : kind = .string
  · subst hkind
    obtain ⟨body, rfl, hbody⟩ := exists_body_of_isToken_string h
    have hquotes : ∀ a ∈ crlf body, a ≠ '"' := by
      rintro a ha rfl
      exact (mem_crlf ha).elim (by decide) hbody
    have hlexeme : crlf ('"' :: (body ++ ['"'])) = '"' :: crlf body ++ ['"'] := by simp
    rw [hlexeme]
    exact .string hquotes
  · rwa [crlf_of_isToken h hkind]

theorem isMalformed_crlf {fault : Fault} {lexeme after : List Char}
    (h : IsMalformed fault lexeme after) : IsMalformed fault (crlf lexeme) (crlf after) := by
  cases h with
  | @stray c _ hno hnone =>
    have hc : c ≠ '\n' := by
      rintro rfl
      exact hnone ['\n'] (.blank (by decide)) rfl
    rw [crlf_cons_of_ne hc]
    exact .stray hno hnone
  | @string body hbody =>
    rw [crlf_cons_of_ne (by decide)]
    refine .string fun a ha => ?_
    rintro rfl
    exact (mem_crlf ha).elim (by decide) fun hmem => hbody _ hmem rfl
  | blockComment hbody =>
    rw [crlf_cons_of_ne (by decide), crlf_cons_of_ne (by decide)]
    exact .blockComment (mt closer_infix_crlf_iff.mp hbody)

section
variable {s : Segment} {after : List Char}

/-- Tokens and what is malformed are the same sort of segment in the changed text. -/
theorem belongs_crlf (hpiece : s.piece ≠ .trivia) (h : s.Belongs after) :
    s.crlf.Belongs (crlf after) := by
  obtain ⟨piece, lexeme⟩ := s
  cases piece with
  | token kind => exact isToken_crlf h
  | trivia => exact absurd rfl hpiece
  | malformed fault => exact isMalformed_crlf h

/-- A carriage return carries nothing on that a line feed does not. -/
theorem stopsBefore_crlf (hpiece : s.piece ≠ .trivia) (h : s.StopsBefore after) :
    s.StopsBefore (crlf after) := by
  match after with
  | [] => exact readsOn_none
  | a :: after =>
    by_cases ha : a = '\n'
    · subst ha
      rw [crlf_cons_lineFeed]
      obtain ⟨piece, lexeme⟩ := s
      cases piece with
      | token kind => exact Kind.readsOn_blank (by decide) kind lexeme _
      | trivia => exact absurd rfl hpiece
      | malformed fault => exact h
    · rw [crlf_cons_of_ne ha]
      match after with
      | [] => exact h
      | b :: after =>
        by_cases hb : b = '\n'
        · subst hb
          exact readsOn_of_not_isDigit rfl h
        · rw [crlf_cons_of_ne hb]
          exact h

/-- What carries a segment on does not change with its text. -/
theorem readsOn_crlf (hpiece : s.piece ≠ .trivia) (h : s.Belongs after)
    (next second : Option Char) : s.crlf.readsOn next second = s.readsOn next second := by
  obtain ⟨piece, lexeme⟩ := s
  cases piece with
  | token kind =>
    by_cases hkind : kind = .string
    · subst hkind
      rfl
    · show kind.readsOn (crlf lexeme) next second = kind.readsOn lexeme next second
      rw [crlf_of_isToken h hkind]
  | trivia => exact absurd rfl hpiece
  | malformed fault => rfl

end

/-! ## Findings -/

/-- The segments of a text that come to a token or a diagnostic, numbered from a line. -/
def findings (line : Nat) (text : List Char) : List Located :=
  (locate line (segments text)).filter fun s => s.segment.piece ≠ .trivia

section
variable {s : Segment} {lexeme after : List Char} {line : Nat}

/-- Trivia in front of a text come to nothing. -/
theorem findings_trivia (h : IsTrivia lexeme)
    (hstop : (⟨.trivia, lexeme⟩ : Segment).StopsBefore after) :
    findings line (lexeme ++ after) = findings (line + lineFeeds lexeme) after := by
  have hne : lexeme ≠ [] := by cases h <;> exact List.cons_ne_nil _ _
  have hbelongs : (⟨.trivia, lexeme⟩ : Segment).Belongs after := h
  have hsegments := segments_text_append hne hbelongs hstop
  unfold findings
  rw [hsegments, locate_cons]
  rfl

theorem findings_blank {c : Char} (hc : c ∈ blanks) :
    findings line (c :: after) = findings (line + lineFeeds [c]) after :=
  findings_trivia (.blank hc) (by simp [Segment.StopsBefore, Segment.readsOn])

/-- Everything else comes to something. -/
theorem findings_found (hne : s.text ≠ []) (h : s.Belongs after) (hstop : s.StopsBefore after)
    (hpiece : s.piece ≠ .trivia) :
    findings line (s.text ++ after) = ⟨s, line⟩ :: findings (line + lineFeeds s.text) after := by
  unfold findings
  rw [segments_text_append hne h hstop, locate_cons, List.filter_cons_of_pos (by simpa using hpiece)]

section
variable {body : List Char}

theorem lineFeed_not_mem_lineComment (hbody : ∀ a ∈ body, a ≠ '\n') :
    '\n' ∉ '/' :: '/' :: body := by
  simpa using fun hmem => hbody '\n' hmem rfl

theorem lineFeeds_lineComment (hbody : ∀ a ∈ body, a ≠ '\n') :
    lineFeeds ('/' :: '/' :: body) = 0 :=
  List.count_eq_zero.mpr (lineFeed_not_mem_lineComment hbody)

theorem stopsBefore_lineComment_iff :
    (⟨.trivia, '/' :: '/' :: body⟩ : Segment).StopsBefore after ↔
      after.head?.any (· ≠ '\n') = false := by
  simp [Segment.StopsBefore, Segment.readsOn]

theorem findings_lineComment (hbody : ∀ a ∈ body, a ≠ '\n')
    (hstop : after.head?.any (· ≠ '\n') = false) :
    findings line ('/' :: '/' :: body ++ after) = findings line after := by
  rw [findings_trivia (.lineComment hbody) (stopsBefore_lineComment_iff.mpr hstop),
    lineFeeds_lineComment hbody, Nat.add_zero]

/-- A line comment takes the carriage return at its end in, and the line feed stays. -/
theorem findings_crlf_lineComment (hbody : ∀ a ∈ body, a ≠ '\n')
    (hstop : after.head?.any (· ≠ '\n') = false) :
    findings line (crlf ('/' :: '/' :: body ++ after)) = findings line (crlf after) := by
  rw [crlf_append, crlf_of_not_mem (lineFeed_not_mem_lineComment hbody)]
  match after with
  | [] => exact findings_lineComment hbody rfl
  | a :: after =>
    obtain rfl : a = '\n' := by simpa using hstop
    have hreturn : ∀ a ∈ body ++ ['\r'], a ≠ '\n' := by
      intro a ha
      rcases List.mem_append.mp ha with ha | ha
      · exact hbody a ha
      · rw [List.mem_singleton.mp ha]
        decide
    have hblank : '\r' ∈ blanks := by decide
    have htext : '/' :: '/' :: body ++ '\r' :: '\n' :: crlf after =
        '/' :: '/' :: (body ++ ['\r']) ++ '\n' :: crlf after := by simp
    rw [crlf_cons_lineFeed, htext, findings_lineComment hreturn rfl]
    exact (findings_blank hblank).symm

end

/-- **Trivia still come to nothing** in the changed text. -/
theorem findings_crlf_trivia (h : IsTrivia lexeme)
    (hstop : (⟨.trivia, lexeme⟩ : Segment).StopsBefore after) :
    findings line (crlf (lexeme ++ after)) = findings (line + lineFeeds lexeme) (crlf after) := by
  cases h with
  | @blank c hc =>
    by_cases hlf : c = '\n'
    · subst hlf
      rw [List.singleton_append, crlf_cons_lineFeed, findings_blank (by decide), findings_blank hc]
      rfl
    · rw [List.singleton_append, crlf_cons_of_ne hlf, findings_blank hc]
  | @lineComment body hbody =>
    rw [lineFeeds_lineComment hbody]
    exact findings_crlf_lineComment hbody (stopsBefore_lineComment_iff.mp hstop)
  | @blockComment body hbody =>
    have hcomment : crlf ('/' :: '*' :: body ++ closer) = '/' :: '*' :: crlf body ++ closer := by
      simp [closer]
    have hstar : crlf (body ++ ['*']) = crlf body ++ ['*'] := by simp
    rw [← lineFeeds_crlf, crlf_append, hcomment]
    refine findings_trivia (.blockComment ?_) (by simp [Segment.StopsBefore, Segment.readsOn])
    rw [← hstar]
    exact mt closer_infix_crlf_iff.mp hbody

/-- **Everything else comes to what it came to**, with its text changed. -/
theorem findings_crlf_found (hne : s.text ≠ []) (h : s.Belongs after) (hstop : s.StopsBefore after)
    (hpiece : s.piece ≠ .trivia) :
    findings line (crlf (s.text ++ after)) =
      ⟨s.crlf, line⟩ :: findings (line + lineFeeds s.text) (crlf after) := by
  have hstop' : s.crlf.StopsBefore (crlf after) :=
    (readsOn_crlf hpiece h _ _).trans (stopsBefore_crlf hpiece hstop)
  rw [crlf_append, ← lineFeeds_crlf]
  exact findings_found (crlf_ne_nil hne) (belongs_crlf hpiece h) hstop' hpiece

end

/-- The segment of a changed text, on its line. -/
def Located.crlf (s : Located) : Located := ⟨s.segment.crlf, s.line⟩

/-- **A changed text comes to what the text comes to**, on the same lines. -/
theorem findings_crlf (line : Nat) (text : List Char) :
    findings line (crlf text) = (findings line text).map Located.crlf := by
  induction text using segments_induction generalizing line with
  | nil => simp [findings]
  | cons c text ih =>
    have hne := text_cut_ne_nil c text
    have hbelongs := belongs_cut c text
    have hstop := stopsBefore_cut c text
    rw [← text_cut c text]
    generalize (cut c text).1 = s at *
    by_cases hpiece : s.piece = .trivia
    · obtain ⟨piece, lexeme⟩ := s
      obtain rfl : piece = .trivia := hpiece
      rw [findings_crlf_trivia hbelongs hstop, findings_trivia hbelongs hstop, ih]
    · rw [findings_crlf_found hne hbelongs hstop hpiece, findings_found hne hbelongs hstop hpiece, ih]
      rfl

/-! ## Scans of changed texts -/

/-- What comes of no trivia comes of the findings. -/
theorem filterMap_findings {α : Type} {f : Located → Option α}
    (hf : ∀ s : Located, s.segment.piece = .trivia → f s = none) (line : Nat) (text : List Char) :
    (findings line text).filterMap f = (locate line (segments text)).filterMap f := by
  unfold findings
  rw [List.filterMap_filter]
  refine List.filterMap_congr fun s _ => ?_
  by_cases hpiece : s.segment.piece = .trivia
  · simp [hpiece, hf s hpiece]
  · simp [hpiece]

/-- A scan lists the findings. -/
theorem scan_findings (source : String) :
    (scan source).tokens = (findings 1 source.toList).filterMap Located.token? ++
        [.endOfInput (1 + lineFeeds source.toList)] ∧
      (scan source).errors = (findings 1 source.toList).filterMap Located.diagnostic? := by
  have htoken : ∀ s : Located, s.segment.piece = .trivia → s.token? = none := by
    intro s hs
    simp [Located.token?, hs]
  have hdiagnostic : ∀ s : Located, s.segment.piece = .trivia → s.diagnostic? = none := by
    intro s hs
    simp [Located.diagnostic?, hs]
  rw [tokens_scan, errors_scan, filterMap_findings htoken, filterMap_findings hdiagnostic]
  exact ⟨rfl, rfl⟩

theorem belongs_of_mem_findings {line : Nat} {text : List Char} {s : Located}
    (h : s ∈ findings line text) : ∃ after, s.segment.Belongs after := by
  have hmem : s.segment ∈ segments text := by
    rw [← map_segment_locate line (segments text)]
    exact List.mem_map_of_mem (List.mem_of_mem_filter h)
  exact belongs_of_mem (division_segments text) hmem

/-- The value of a token of a changed text: strings change with their lexemes. -/
def Literal.crlf : Literal → Literal
  | .number value => .number value
  | .string value => .string (String.ofList (LoxLexer.crlf value.toList))

/-- The token of a changed text. -/
def Token.crlf (t : Token) : Token where
  kind := t.kind
  lexeme := String.ofList (LoxLexer.crlf t.lexeme.toList)
  literal := t.literal.map Literal.crlf
  line := t.line

theorem literal?_crlf {kind : Kind} {lexeme : List Char} (h : IsToken kind lexeme) :
    literal? kind (crlf lexeme) = (literal? kind lexeme).map Literal.crlf := by
  by_cases hkind : kind = .string
  · subst hkind
    obtain ⟨body, rfl, -⟩ := exists_body_of_isToken_string h
    simp [literal?, Literal.crlf]
  · rw [crlf_of_isToken h hkind]
    unfold literal?
    split
    · rfl
    · exact absurd rfl hkind
    · rfl

theorem Located.token?_crlf {s : Located} {after : List Char} (h : s.segment.Belongs after) :
    s.crlf.token? = s.token?.map Token.crlf := by
  obtain ⟨⟨piece, lexeme⟩, line⟩ := s
  cases piece with
  | token kind => simp [Located.crlf, Segment.crlf, Located.token?, Token.crlf, literal?_crlf h]
  | trivia | malformed => rfl

theorem Located.diagnostic?_crlf (s : Located) : s.crlf.diagnostic? = s.diagnostic? := by
  obtain ⟨⟨piece, lexeme⟩, line⟩ := s
  cases piece <;> rfl

/-- **Line ends do not matter.** With a carriage return in front of every line feed, a text has the
same diagnostics and the same tokens on the same lines, but for the carriage returns in the lexemes
and values of strings. -/
theorem scan_crlf (source : String) :
    (scan (String.ofList (crlf source.toList))).tokens = (scan source).tokens.map Token.crlf ∧
      (scan (String.ofList (crlf source.toList))).errors = (scan source).errors := by
  have htokens : (findings 1 source.toList).filterMap (fun s => s.crlf.token?) =
      ((findings 1 source.toList).filterMap Located.token?).map Token.crlf := by
    rw [List.map_filterMap]
    refine List.filterMap_congr fun s hs => ?_
    obtain ⟨after, hbelongs⟩ := belongs_of_mem_findings hs
    exact Located.token?_crlf hbelongs
  obtain ⟨hlisted, hreported⟩ := scan_findings (String.ofList (crlf source.toList))
  rw [String.toList_ofList, findings_crlf, List.filterMap_map] at hlisted hreported
  rw [hlisted, hreported, (scan_findings source).1, (scan_findings source).2, lineFeeds_crlf]
  constructor
  · rw [List.map_append]
    exact congrArg (· ++ _) htokens
  · exact List.filterMap_congr fun s _ => Located.diagnostic?_crlf s

end LoxLexer
