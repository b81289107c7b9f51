import LoxLexer.Proofs.Scan.Blank

/-!
# Tokens written out

Tokens that were found anywhere may be written out with white space between them, and are found
again: the same kinds, lexemes and values in the same order, whatever stands next to them.

## Results

* `render`: tokens with white space between them.
* `segments_render`, `locate_renderedSegments`: the segments of the text are the tokens and the
  white space, and what they come to.
* `scan_render`: the tokens of the text, with the lines they stand on in it.
-/

namespace LoxLexer

/-- Tokens written out: a gap in front, and every lexeme with the gap behind it. -/
def render (gap : String) : List (Token × String) → String
  | [] => gap
  | (t, behind) :: rest => gap ++ t.lexeme ++ render behind rest

/-- A token as a segment. -/
def Token.segment (t : Token) : Segment := ⟨.token t.kind, t.lexeme.toList⟩

theorem Token.Genuine.token?_segment {t : Token} (h : t.Genuine) (line : Nat) :
    (⟨t.segment, line⟩ : Located).token? = some { t with line } := by
  simp [Located.token?, Token.segment, h.literal]

/-- The segments of tokens written out. -/
def renderedSegments (gap : String) : List (Token × String) → List Segment
  | [] => gap.toList.map blankSegment
  | (t, behind) :: rest =>
    gap.toList.map blankSegment ++ t.segment :: renderedSegments behind rest

/-- The tokens of a text that starts on a line and in which they are written out: in front of each
stand the gap and the tokens before it. -/
def renderedTokens (line : Nat) (gap : String) (tokens : List (Token × String)) : List Token :=
  tokens.mapIdx fun i p =>
    { p.1 with line := line + lineFeeds (render gap (tokens.take i)).toList }

section
variable {gap : String} {tokens : List (Token × String)}

theorem toList_render_cons (gap behind : String) (t : Token) (rest : List (Token × String)) :
    (render gap ((t, behind) :: rest)).toList =
      gap.toList ++ (t.lexeme.toList ++ (render behind rest).toList) := by
  rw [render, String.toList_append, String.toList_append, List.append_assoc]

/-- Behind a token stands white space, or nothing. -/
theorem head_render_mem_blanks (hgap : ∀ c ∈ gap.toList, c ∈ blanks)
    (hne : tokens ≠ [] → gap ≠ "") : ∀ c ∈ (render gap tokens).toList.head?, c ∈ blanks := by
  intro c hc
  have hgapText : c ∈ gap.toList := by
    cases tokens with
    | nil => exact List.mem_of_head? hc
    | cons p rest =>
      have hnil : gap.toList ≠ [] := by simpa using hne (List.cons_ne_nil _ _)
      rw [toList_render_cons, List.head?_append_of_ne_nil _ hnil] at hc
      exact List.mem_of_head? hc
  exact hgap c hgapText

theorem ne_nil_of_isToken {kind : Kind} {lexeme : List Char} (h : IsToken kind lexeme) :
    lexeme ≠ [] := by
  cases h with
  | mark | alone | followed | slash | identifier | string => exact List.cons_ne_nil _ _
  | whole hne _ => exact hne
  | fraction => simp
  | keyword k =>
    obtain ⟨c, rest, hword, -⟩ := exists_word k
    rw [hword]
    exact List.cons_ne_nil c rest

/-- **Tokens written out are segments again**, with white space between. -/
theorem segments_render (hgenuine : ∀ p ∈ tokens, p.1.Genuine)
    (hgap : ∀ c ∈ gap.toList, c ∈ blanks) (hgaps : ∀ p ∈ tokens, ∀ c ∈ p.2.toList, c ∈ blanks)
    (hne : ∀ p ∈ tokens.dropLast, p.2 ≠ "") :
    segments (render gap tokens).toList = renderedSegments gap tokens := by
  induction tokens generalizing gap with
  | nil =>
    have hblanks := segments_blanks_append hgap []
    rwa [List.append_nil, segments_nil, List.append_nil] at hblanks
  | cons p rest ih =>
    obtain ⟨t, behind⟩ := p
    have htoken := (hgenuine _ List.mem_cons_self).isToken
    have hbehind := hgaps _ List.mem_cons_self
    have hbehindNe : rest ≠ [] → behind ≠ "" := by
      intro hrest
      rw [List.dropLast_cons_of_ne_nil hrest] at hne
      exact hne _ List.mem_cons_self
    have hstop : t.segment.StopsBefore (render behind rest).toList :=
      stopsBefore_of_blank (head_render_mem_blanks hbehind hbehindNe)
    have hbelongs : t.segment.Belongs (render behind rest).toList := htoken
    have hcut : segments (t.lexeme.toList ++ (render behind rest).toList) =
        t.segment :: segments (render behind rest).toList :=
      segments_text_append (ne_nil_of_isToken htoken) hbelongs hstop
    have hneRest : ∀ q ∈ rest.dropLast, q.2 ≠ "" := fun q hq => by
      have hrest : rest ≠ [] := by
        rintro rfl
        cases hq
      rw [List.dropLast_cons_of_ne_nil hrest] at hne
      exact hne q (List.mem_cons_of_mem _ hq)
    have hrest := ih (fun q hq => hgenuine q (List.mem_cons_of_mem _ hq)) hbehind
      (fun q hq => hgaps q (List.mem_cons_of_mem _ hq)) hneRest
    rw [toList_render_cons, segments_blanks_append hgap, hcut, hrest]
    rfl

theorem renderedTokens_cons (line : Nat) (gap behind : String) (t : Token)
    (rest : List (Token × String)) :
    renderedTokens line gap ((t, behind) :: rest) =
      { t with line := line + lineFeeds gap.toList } ::
        renderedTokens (line + lineFeeds gap.toList + lineFeeds t.lexeme.toList) behind rest := by
  unfold renderedTokens
  rw [List.mapIdx_cons]
  congr 2
  funext i p
  rw [List.take_succ_cons, toList_render_cons, lineFeeds_append, lineFeeds_append]
  simp only [Nat.add_assoc]

/-- What tokens written out come to. -/
theorem locate_renderedSegments (hgenuine : ∀ p ∈ tokens, p.1.Genuine) (line : Nat) :
    (locate line (renderedSegments gap tokens)).filterMap Located.token? =
        renderedTokens line gap tokens ∧
      (locate line (renderedSegments gap tokens)).filterMap Located.diagnostic? = [] := by
  induction tokens generalizing gap line with
  | nil => exact locate_blanks line
  | cons p rest ih =>
    obtain ⟨t, behind⟩ := p
    obtain ⟨htokens, hnone⟩ := @ih behind (fun q hq => hgenuine q (List.mem_cons_of_mem _ hq))
      (line + lineFeeds gap.toList + lineFeeds t.lexeme.toList)
    obtain ⟨hgapToken, hgapFault⟩ := @locate_blanks gap.toList line
    have htoken := (hgenuine _ List.mem_cons_self).token?_segment (line + lineFeeds gap.toList)
    have hfault : (⟨t.segment, line + lineFeeds gap.toList⟩ : Located).diagnostic? = none := rfl
    have hlexeme : t.segment.text = t.lexeme.toList := rfl
    rw [renderedSegments, locate_append, flatMap_text_blanks, locate_cons, hlexeme,
      List.filterMap_append, List.filterMap_append, hgapToken, hgapFault,
      List.filterMap_cons_some htoken, List.filterMap_cons_none hfault, htokens, hnone,
      renderedTokens_cons]
    exact ⟨rfl, rfl⟩

/-- **Tokens written out are found again**, wherever they were found and whatever white space stands
between them. Only their lines are those of the new text. -/
theorem scan_render (hfound : ∀ p ∈ tokens, ∃ source, p.1 ∈ (scan source).proper)
    (hgap : ∀ c ∈ gap.toList, c ∈ blanks) (hgaps : ∀ p ∈ tokens, ∀ c ∈ p.2.toList, c ∈ blanks)
    (hne : ∀ p ∈ tokens.dropLast, p.2 ≠ "") :
    (scan (render gap tokens)).tokens =
        renderedTokens 1 gap tokens ++
          [.endOfInput (1 + lineFeeds (render gap tokens).toList)] ∧
      (scan (render gap tokens)).errors = [] := by
  have hgenuine : ∀ p ∈ tokens, p.1.Genuine := by
    intro p hp
    obtain ⟨source, hsource⟩ := hfound p hp
    rw [proper_scan] at hsource
    exact genuine_of_mem hsource
  have hsegments := segments_render hgenuine hgap hgaps hne
  obtain ⟨htokens, hnone⟩ := @locate_renderedSegments gap tokens hgenuine 1
  rw [tokens_scan, errors_scan]
  unfold located
  rw [hsegments, htokens, hnone]
  exact ⟨rfl, rfl⟩

end

/-- A string over two lines and the two tokens of a number with a point behind it, from two texts
of which one ends in a comment that is never closed. -/
theorem scan_render_string_number_dot :
    let string : Token := ⟨.string, "\"/*\n\"", some (.string "/*\n"), 1⟩
    let number : Token := ⟨.number, "1", some (.number (.nearest (.ofChars ['1']))), 2⟩
    let dot : Token := ⟨.dot, ".", none, 2⟩
    let tokens := [(string, " "), (number, "\t\r\n"), (dot, "")]
    (∀ p ∈ tokens, ∃ source, p.1 ∈ (scan source).proper) ∧
      (scan "\n\"/*\n\" 1\t\r\n.").tokens =
        [{ string with line := 2 }, { number with line := 3 }, { dot with line := 4 },
          .endOfInput 4] ∧
      (scan "\n\"/*\n\" 1\t\r\n.").errors = [] := by
  intro string number dot tokens
  have hstring : (scan "\"/*\n\"/*").proper.head? = some string := by decide +kernel
  have hnumber : (scan "\n1.").proper.head? = some number := by decide +kernel
  have hdot : (scan "\n1.").proper.getLast? = some dot := by decide +kernel
  have hfound : ∀ p ∈ tokens, ∃ source, p.1 ∈ (scan source).proper := by
    simp only [tokens, List.forall_mem_cons, List.not_mem_nil, false_implies, implies_true,
      and_true]
    exact ⟨⟨_, List.mem_of_head? hstring⟩, ⟨_, List.mem_of_head? hnumber⟩,
      ⟨_, List.mem_of_getLast? hdot⟩⟩
  have hrender : render "\n" tokens = "\n\"/*\n\" 1\t\r\n." := by decide +kernel
  have hlines : renderedTokens 1 "\n" tokens =
      [{ string with line := 2 }, { number with line := 3 }, { dot with line := 4 }] := by
    decide +kernel
  have hgap : ∀ c ∈ "\n".toList, c ∈ blanks := by simp [blanks]
  have hgaps : ∀ p ∈ tokens, ∀ c ∈ p.2.toList, c ∈ blanks := by simp [tokens, blanks]
  have hne : ∀ p ∈ tokens.dropLast, p.2 ≠ "" := by simp [tokens]
  have hscan := scan_render hfound hgap hgaps hne
  rw [hrender, hlines] at hscan
  exact ⟨hfound, hscan⟩

end LoxLexer
