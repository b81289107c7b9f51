import LoxLexer.Proofs.Segment.LongestMatch

/-!
# Lines

The line of a token or a diagnostic is one more than the line feeds in front of the first character
of its segment, wherever those line feeds are: between tokens, in strings or in comments, terminated
or not. The end of input is on the line after all of them.
-/

namespace LoxLexer

/-- What the numbered segments come to, back to the segments: the `i`-th of them is the segment with
`i` of its sort in front, and its line counts the line feeds of all segments in front. -/
theorem exists_of_getElem?_locate {α β : Type} {f : Located → Option α} {g : Segment → Option β}
    (hsort : ∀ s line, (f ⟨s, line⟩).isSome = (g s).isSome) {segments : List Segment}
    {line i : Nat} {a : α} (h : ((locate line segments).filterMap f)[i]? = some a) :
    ∃ before s after, segments = before ++ s :: after ∧ (before.filterMap g).length = i ∧
      f ⟨s, line + lineFeeds (before.flatMap Segment.text)⟩ = some a := by
  induction segments generalizing line i with
  | nil => simp at h
  | cons s segments ih =>
    rw [locate_cons, List.filterMap_cons] at h
    have hs := hsort s line
    cases hf : f ⟨s, line⟩ with
    | none =>
      rw [hf] at h hs
      have hg : g s = none := by simpa using hs.symm
      obtain ⟨before, t, after, rfl, hi, ha⟩ := ih h
      refine ⟨s :: before, t, after, rfl, by simp [hg, hi], ?_⟩
      rw [List.flatMap_cons, lineFeeds_append, ← Nat.add_assoc]
      exact ha
    | some b =>
      rw [hf] at h hs
      obtain ⟨x, hg⟩ := Option.isSome_iff_exists.mp hs.symm
      cases i with
      | zero => exact ⟨[], s, segments, rfl, rfl, by simpa [hf] using h⟩
      | succ i =>
        obtain ⟨before, t, after, rfl, hi, ha⟩ := ih (by simpa using h)
        refine ⟨s :: before, t, after, rfl, by simp [hg, hi], ?_⟩
        rw [List.flatMap_cons, lineFeeds_append, ← Nat.add_assoc]
        exact ha

theorem Located.isSome_token? (s : Segment) (line : Nat) :
    (Located.token? ⟨s, line⟩).isSome = s.token?.isSome := by
  rw [← Located.map_token? ⟨s, line⟩, Option.isSome_map]

theorem Located.isSome_diagnostic? (s : Segment) (line : Nat) :
    (Located.diagnostic? ⟨s, line⟩).isSome = s.fault?.isSome := by
  rw [← Located.map_diagnostic? ⟨s, line⟩, Option.isSome_map]

theorem Located.line_of_token? {s : Located} {t : Token} (h : s.token? = some t) :
    t.line = s.line := by
  unfold Located.token? at h
  split at h
  · cases h; rfl
  · simp at h

theorem Located.line_of_diagnostic? {s : Located} {d : Diagnostic}
    (h : s.diagnostic? = some d) : d.line = s.line := by
  unfold Located.diagnostic? at h
  split at h
  · cases h; rfl
  · simp at h

/-- **Lines are counted right.** The `i`-th token of a scan is the `i`-th token segment of the text,
and its line is one more than the line feeds in front of that segment; so for the diagnostics and
the malformed segments. The end of input is behind all line feeds of the text. -/
theorem line_eq_lineFeeds_before (source : String) {division : List Segment}
    (h : Division source.toList division) :
    (∀ (i : Nat) (t : Token), (scan source).proper[i]? = some t →
      ∃ before s after, division = before ++ s :: after ∧
        (before.filterMap Segment.token?).length = i ∧ s.token? = some (t.kind, t.lexeme) ∧
        before.flatMap Segment.text ++ s.text <+: source.toList ∧
        t.line = 1 + lineFeeds (before.flatMap Segment.text)) ∧
    (∀ (i : Nat) (d : Diagnostic), (scan source).errors[i]? = some d →
      ∃ before s after, division = before ++ s :: after ∧
        (before.filterMap Segment.fault?).length = i ∧ s.fault? = some d.fault ∧
        before.flatMap Segment.text ++ s.text <+: source.toList ∧
        d.line = 1 + lineFeeds (before.flatMap Segment.text)) ∧
    (scan source).tokens.getLast? = some (.endOfInput (1 + lineFeeds source.toList)) := by
  obtain rfl := division_iff.mp h
  have hfront : ∀ before s after, segments source.toList = before ++ s :: after →
      before.flatMap Segment.text ++ s.text <+: source.toList := by
    intro before s after hsplit
    have htext := flatMap_text_segments source.toList
    rw [hsplit] at htext
    exact ⟨after.flatMap Segment.text, by rw [← htext]; simp⟩
  refine ⟨?_, ?_, ?_⟩
  · intro i t ht
    rw [proper_scan] at ht
    obtain ⟨before, s, after, hsplit, hi, hs⟩ :=
      exists_of_getElem?_locate Located.isSome_token? ht
    have hkind := Located.map_token? ⟨s, 1 + lineFeeds (before.flatMap Segment.text)⟩
    rw [hs] at hkind
    exact ⟨before, s, after, hsplit, hi, hkind.symm, hfront _ _ _ hsplit,
      Located.line_of_token? hs⟩
  · intro i d hd
    rw [errors_scan] at hd
    obtain ⟨before, s, after, hsplit, hi, hs⟩ :=
      exists_of_getElem?_locate Located.isSome_diagnostic? hd
    have hfault := Located.map_diagnostic? ⟨s, 1 + lineFeeds (before.flatMap Segment.text)⟩
    rw [hs] at hfault
    exact ⟨before, s, after, hsplit, hi, hfault.symm, hfront _ _ _ hsplit,
      Located.line_of_diagnostic? hs⟩
  · rw [tokens_scan, List.getLast?_append]
    rfl

/-- A string that is never closed is reported on the line of its quote, two line feeds before the
end of the text. -/
theorem line_of_open_string :
    Division "a\n\"\nb\n".toList
        [⟨.token .identifier, ['a']⟩, ⟨.trivia, ['\n']⟩,
          ⟨.malformed .unterminatedString, ['"', '\n', 'b', '\n']⟩] ∧
      (scan "a\n\"\nb\n").errors[0]? = some ⟨.unterminatedString, 2⟩ ∧
      ∃ before s after,
        [⟨.token .identifier, ['a']⟩, ⟨.trivia, ['\n']⟩,
          ⟨.malformed .unterminatedString, ['"', '\n', 'b', '\n']⟩] = before ++ s :: after ∧
        (before.filterMap Segment.fault?).length = 0 ∧ s.fault? = some .unterminatedString ∧
        before.flatMap Segment.text ++ s.text <+: "a\n\"\nb\n".toList ∧
        2 = 1 + lineFeeds (before.flatMap Segment.text) := by
  have hdivision : Division "a\n\"\nb\n".toList
      [⟨.token .identifier, ['a']⟩, ⟨.trivia, ['\n']⟩,
        ⟨.malformed .unterminatedString, ['"', '\n', 'b', '\n']⟩] :=
    division_iff.mpr (by decide +kernel)
  have herror : (scan "a\n\"\nb\n").errors[0]? = some ⟨.unterminatedString, 2⟩ := by
    decide +kernel
  exact ⟨hdivision, herror, (line_eq_lineFeeds_before _ hdivision).2.1 0 _ herror⟩

end LoxLexer
