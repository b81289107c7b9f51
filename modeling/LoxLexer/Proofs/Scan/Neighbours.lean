import Mathlib.Data.List.Flatten
import LoxLexer.Proofs.Scan.Brackets
import LoxLexer.Proofs.Scan.Rendering

/-!
# Tokens next to each other

Tokens written out with nothing between them are found again unless two of them run together, or
three: a number, a point and a number. Which do can be told from their kinds, and in one case from
whether the first number has a point already (`RunsTogether`).

## Results

* `readsOn_iff_runsTogether`: a token goes on with what follows it where it runs together with it.
* `segments_spell_iff`: tokens are the segments of their text where none run together.
* `scan_spell_iff`: the same of a scan.
-/

namespace LoxLexer

/-- Whether tokens of a kind are words: identifiers and reserved words. -/
def Kind.isWord : Kind → Bool
  | keyword _ | identifier => true
  | _ => false

/-! ## What tokens start with -/

section
variable {kind : Kind} {c : Char} {after : List Char}

/-- What a character announces, and the kinds of token that start with it. -/
theorem announces_iff_of_isToken {o : Opening} (ho : o ≠ .stray) (h : IsToken kind (c :: after)) :
    Opening.Announces c o ↔ kind.opening = o := by
  rw [← Opening.of_eq_iff ho, opening_of_isToken h rfl]

theorem eq_mark_iff {mark : Char} {found : Kind} (hmark : (mark, found) ∈ Opening.marks)
    (h : IsToken kind (c :: after)) : c = mark ↔ kind = found := by
  constructor
  · rintro rfl
    have hkind : kind.opening = .mark found → kind = found := by
      cases kind <;> simp [Kind.opening]
    exact hkind ((announces_iff_of_isToken (o := .mark found) (by simp) h).mp hmark)
  · rintro rfl
    exact List.head_eq_of_cons_eq (eq_mark_of_isToken hmark h)

theorem eq_equalSign_iff (h : IsToken kind (c :: after)) :
    c = '=' ↔ kind ∈ [.equal, .equalEqual] := by
  have hmark : c = '=' ↔ Opening.Announces c (.withEqual .equal .equalEqual) := by
    simp [Opening.Announces, Opening.equalMarks]
  rw [hmark, announces_iff_of_isToken (by simp) h]
  cases kind <;> simp [Kind.opening]

theorem eq_slash_iff (h : IsToken kind (c :: after)) : c = '/' ↔ kind = .slash := by
  have hopening : c = '/' ↔ kind.opening = .slash :=
    announces_iff_of_isToken (o := .slash) (by simp) h
  rw [hopening]
  cases kind <;> simp [Kind.opening]

theorem isDigit_iff (h : IsToken kind (c :: after)) : c.isDigit = true ↔ kind = .number := by
  have hopening : c.isDigit = true ↔ kind.opening = .digit :=
    announces_iff_of_isToken (o := .digit) (by simp) h
  rw [hopening]
  cases kind <;> simp [Kind.opening]

theorem isWordPart_iff (h : IsToken kind (c :: after)) :
    isWordPart c = true ↔ kind.isWord = true ∨ kind = .number := by
  have hopening : isWordStart c = true ↔ kind.opening = .wordStart :=
    announces_iff_of_isToken (o := .wordStart) (by simp) h
  rw [isWordPart, Bool.or_eq_true, hopening, isDigit_iff h]
  cases kind <;> simp [Kind.opening, Kind.isWord]

end

/-! ## Which tokens run together -/

/-- Whether a token runs together with what follows it: words with words and numbers, numbers with
numbers, marks with the equal sign behind them, a slash with what makes it a comment, and a number
without a point with a point that has a number behind it. -/
def RunsTogether (t : Token) : List Token → Prop
  | [] => False
  | next :: rest =>
    (t.kind.isWord ∧ (next.kind.isWord ∨ next.kind = .number)) ∨
      (t.kind = .number ∧ next.kind = .number) ∨
      (t.kind ∈ [.bang, .equal, .less, .greater] ∧ next.kind ∈ [.equal, .equalEqual]) ∨
      (t.kind = .slash ∧ next.kind ∈ [.slash, .star]) ∨
      (t.kind = .number ∧ '.' ∉ t.lexeme.toList ∧ next.kind = .dot ∧
        rest.head?.any fun behind => behind.kind = .number)

instance (t : Token) : (rest : List Token) → Decidable (RunsTogether t rest)
  | [] => inferInstanceAs (Decidable False)
  | _ :: _ => inferInstanceAs (Decidable (_ ∨ _))

/-- Tokens written out with nothing between them. -/
def spell (tokens : List Token) : String := String.join (tokens.map Token.lexeme)

theorem toList_spell (tokens : List Token) :
    (spell tokens).toList = (tokens.map Token.segment).flatMap Segment.text := by
  rw [spell, String.toList_join, List.flatMap_map, List.flatMap_map]
  rfl

section
variable {t : Token} {tokens rest : List Token}

theorem exists_head_of_genuine (h : t.Genuine) :
    ∃ c after, t.lexeme.toList = c :: after ∧ IsToken t.kind (c :: after) := by
  have htoken := h.isToken
  obtain ⟨c, after, hlexeme⟩ := List.exists_cons_of_ne_nil (ne_nil_of_isToken htoken)
  rw [hlexeme] at htoken
  exact ⟨c, after, hlexeme, htoken⟩

theorem toList_spell_cons (t : Token) (rest : List Token) :
    (spell (t :: rest)).toList = t.lexeme.toList ++ (spell rest).toList := by
  rw [toList_spell, toList_spell, List.map_cons, List.flatMap_cons]
  rfl

/-- Tokens written out start with a digit if the first of them is a number. -/
theorem any_isDigit_head?_spell (hgenuine : ∀ u ∈ tokens, u.Genuine) :
    (spell tokens).toList.head?.any Char.isDigit =
      tokens.head?.any fun first => first.kind = .number := by
  cases tokens with
  | nil => rfl
  | cons u rest =>
    obtain ⟨c, after, hlexeme, htoken⟩ := exists_head_of_genuine (hgenuine u List.mem_cons_self)
    rw [toList_spell_cons, hlexeme]
    exact Bool.eq_iff_iff.mpr (by simpa using isDigit_iff htoken)

/-- **A token goes on with what follows it where it runs together with it.** -/
theorem readsOn_iff_runsTogether (hgenuine : ∀ u ∈ rest, u.Genuine) :
    t.segment.readsOn (spell rest).toList.head? (spell rest).toList.tail.head? = true ↔
      RunsTogether t rest := by
  cases rest with
  | nil =>
    have hnone : t.segment.readsOn (spell []).toList.head? (spell []).toList.tail.head? = false :=
      readsOn_none
    rw [hnone]
    exact iff_of_false Bool.false_ne_true id
  | cons next rest =>
    obtain ⟨hnext, hrest⟩ := List.forall_mem_cons.mp hgenuine
    obtain ⟨c, after, hlexeme, htoken⟩ := exists_head_of_genuine hnext
    rw [toList_spell_cons, hlexeme]
    show t.kind.readsOn t.lexeme.toList (some c) (after ++ (spell rest).toList).head? = true ↔ _
    -- behind a point stands the next token but one
    have hpoint : next.kind = .dot → (after ++ (spell rest).toList).head?.any Char.isDigit =
        rest.head?.any fun behind => behind.kind = .number := by
      intro hkind
      rw [hkind] at htoken
      obtain rfl := (List.cons.inj (eq_mark_of_isToken (c := '.') (by decide) htoken)).2
      exact any_isDigit_head?_spell hrest
    generalize (after ++ (spell rest).toList).head? = second at hpoint ⊢
    have hstar : c = '*' ↔ next.kind = .star := eq_mark_iff (by decide) htoken
    have hdot : c = '.' ↔ next.kind = .dot := eq_mark_iff (by decide) htoken
    obtain ⟨kind, lexeme, literal, line⟩ := t
    cases kind with
    | bang | equal | less | greater =>
      simp [Kind.readsOn, RunsTogether, Kind.isWord, eq_equalSign_iff htoken]
    | slash => simp [Kind.readsOn, RunsTogether, Kind.isWord, eq_slash_iff htoken, hstar]
    | keyword | identifier =>
      simp [Kind.readsOn, RunsTogether, Kind.isWord, isWordPart_iff htoken]
    | number =>
      by_cases hkind : next.kind = .dot
      · simp [Kind.readsOn, RunsTogether, Kind.isWord, isDigit_iff htoken, hdot, hkind,
          hpoint hkind, and_comm]
      · simp [Kind.readsOn, RunsTogether, Kind.isWord, isDigit_iff htoken, hdot, hkind]
    | _ => simp [Kind.readsOn, RunsTogether, Kind.isWord]

/-! ## Tokens and their text -/

/-- **Tokens are the segments of their text** where none run together. -/
theorem segments_spell_iff (hgenuine : ∀ u ∈ tokens, u.Genuine) :
    segments (spell tokens).toList = tokens.map Token.segment ↔
      ∀ (i : Nat) (hi : i < tokens.length), ¬ RunsTogether tokens[i] (tokens.drop (i + 1)) := by
  have hbelongs : ∀ s ∈ tokens.map Token.segment, s.text ≠ [] ∧ ∀ after, s.Belongs after := by
    intro s hs
    obtain ⟨u, hu, rfl⟩ := List.mem_map.mp hs
    have htoken := (hgenuine u hu).isToken
    exact ⟨ne_nil_of_isToken htoken, fun _ => htoken⟩
  rw [toList_spell, segments_flatMap_iff hbelongs]
  simp only [List.length_map, List.getElem_map, ← List.map_drop, ← toList_spell]
  refine forall_congr' fun i => forall_congr' fun hi => ?_
  rw [← readsOn_iff_runsTogether fun u hu => hgenuine u (List.mem_of_mem_drop hu), Bool.not_eq_true]
  rfl

/-- Tokens found in a division are some of its segments. -/
theorem sublist_of_token? (division : List Segment) :
    ((division.filterMap Segment.token?).map fun found =>
      (⟨.token found.1, found.2.toList⟩ : Segment)).Sublist division := by
  induction division with
  | nil => exact .slnil
  | cons s division ih =>
    obtain ⟨piece, lexeme⟩ := s
    cases piece with
    | token kind => simpa [Segment.token?] using ih
    | trivia | malformed => exact ih.cons _

/-- Segments of a division that make up all its text are all of it. -/
theorem eq_of_sublist_of_text {part whole : List Segment} (h : part.Sublist whole)
    (hne : ∀ s ∈ whole, s.text ≠ [])
    (htext : part.flatMap Segment.text = whole.flatMap Segment.text) : part = whole := by
  induction h with
  | slnil => rfl
  | @cons part whole s h ih =>
    have hshort := (h.flatMap Segment.text).length_le
    have hs := List.length_pos_iff.mpr (hne s List.mem_cons_self)
    rw [htext, List.flatMap_cons, List.length_append] at hshort
    omega
  | @cons_cons part whole s h ih =>
    rw [List.flatMap_cons, List.flatMap_cons] at htext
    rw [ih (fun t ht => hne t (List.mem_cons_of_mem s ht)) (List.append_cancel_left htext)]

/-- Tokens found in their text are all its segments. -/
theorem segments_spell_of_token?
    (h : (segments (spell tokens).toList).filterMap Segment.token? =
      tokens.map fun t => (t.kind, t.lexeme)) :
    segments (spell tokens).toList = tokens.map Token.segment := by
  have hsub := sublist_of_token? (segments (spell tokens).toList)
  rw [h, List.map_map] at hsub
  refine (eq_of_sublist_of_text hsub (fun s hs => text_ne_nil_of_mem_segments hs) ?_).symm
  rw [flatMap_text_segments, toList_spell]
  rfl

/-! ## Scans of tokens written out -/

/-- What tokens come to as segments, whatever the line they start on. -/
theorem locate_tokens (hgenuine : ∀ u ∈ tokens, u.Genuine) (line : Nat) :
    ((locate line (tokens.map Token.segment)).filterMap Located.token?).map Token.content =
        tokens.map Token.content ∧
      (locate line (tokens.map Token.segment)).filterMap Located.diagnostic? = [] := by
  induction tokens generalizing line with
  | nil => exact ⟨rfl, rfl⟩
  | cons u rest ih =>
    obtain ⟨hu, hrest⟩ := List.forall_mem_cons.mp hgenuine
    obtain ⟨htokens, hnone⟩ := ih hrest (line + lineFeeds u.segment.text)
    have hfault : (⟨u.segment, line⟩ : Located).diagnostic? = none := rfl
    rw [List.map_cons, locate_cons, List.filterMap_cons_some (hu.token?_segment line),
      List.filterMap_cons_none hfault, List.map_cons, htokens]
    exact ⟨rfl, hnone⟩

/-- **Which tokens run together.** Tokens that were found anywhere are written out with nothing
between them. Nothing is wrong in the text, and it has the same tokens with an end of input behind
them, exactly if none of them runs together with what follows it. -/
theorem scan_spell_iff (hfound : ∀ t ∈ tokens, ∃ source, t ∈ (scan source).proper) :
    ((scan (spell tokens)).errors = [] ∧
        (scan (spell tokens)).tokens.map Token.content =
          tokens.map Token.content ++ [(.endOfInput, "", none)]) ↔
      ∀ (i : Nat) (hi : i < tokens.length), ¬ RunsTogether tokens[i] (tokens.drop (i + 1)) := by
  have hgenuine : ∀ t ∈ tokens, t.Genuine := by
    intro t ht
    obtain ⟨source, hsource⟩ := hfound t ht
    exact genuine_of_mem_proper hsource
  rw [← segments_spell_iff hgenuine]
  constructor
  · rintro ⟨-, hcontent⟩
    have htokens := map_tokens_scan (spell tokens)
    have hkinds := congrArg (List.map fun found => (found.1, found.2.1)) hcontent
    rw [List.map_append, List.map_map, List.map_map] at hkinds
    exact segments_spell_of_token? (List.append_cancel_right (htokens.symm.trans hkinds))
  · intro hsegments
    obtain ⟨htokens, hnone⟩ := locate_tokens hgenuine 1
    rw [errors_scan, tokens_scan]
    unfold located
    rw [hsegments, List.map_append, htokens, hnone]
    exact ⟨rfl, rfl⟩

end

/-- A number that has a point is found again in front of a point and a number, and a number in front
of a word. A number without a point is not. -/
theorem scan_spell_numbers :
    let whole : Token := ⟨.number, "1", some (.number (.nearest (.ofChars ['1']))), 1⟩
    let fraction : Token :=
      ⟨.number, "1.2", some (.number (.nearest (.ofChars ['1', '.', '2']))), 1⟩
    let dot : Token := ⟨.dot, ".", none, 1⟩
    let word : Token := ⟨.identifier, "e5", none, 1⟩
    (∀ t ∈ [fraction, dot, whole, word], ∃ source, t ∈ (scan source).proper) ∧
      ((scan "1.2.1e5").errors = [] ∧
        (scan "1.2.1e5").tokens.map Token.content =
          [fraction, dot, whole, word].map Token.content ++ [(.endOfInput, "", none)]) ∧
      ¬ ((scan "1.1").errors = [] ∧
        (scan "1.1").tokens.map Token.content =
          [whole, dot, whole].map Token.content ++ [(.endOfInput, "", none)]) := by
  intro whole fraction dot word
  have hproper : (scan "1.2 . 1 e5").proper = [fraction, dot, whole, word] := by decide +kernel
  have hfound : ∀ t ∈ [fraction, dot, whole, word], ∃ source, t ∈ (scan source).proper :=
    fun t ht => ⟨"1.2 . 1 e5", hproper ▸ ht⟩
  have hfoundTogether : ∀ t ∈ [whole, dot, whole], ∃ source, t ∈ (scan source).proper := by
    intro t ht
    have hsubset : [whole, dot, whole] ⊆ [fraction, dot, whole, word] := by decide +kernel
    exact hfound t (hsubset ht)
  have hapart := (scan_spell_iff hfound).mpr (by decide +kernel)
  have htogether := mt (scan_spell_iff hfoundTogether).mp (by decide +kernel)
  have hspell : spell [fraction, dot, whole, word] = "1.2.1e5" := by decide +kernel
  have hspellTogether : spell [whole, dot, whole] = "1.1" := by decide +kernel
  rw [hspell] at hapart
  rw [hspellTogether] at htogether
  exact ⟨hfound, hapart, htogether⟩

end LoxLexer
