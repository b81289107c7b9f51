import LoxLexer.Proofs.Prompt.Blocks
import LoxLexer.Proofs.Scan.Brackets

/-!
# When an entry ends

Whether an entry is finished is a question about its lines alone (`Ends`), whatever the draft was
like in between. A draft remembers whether the line before was empty only while its text is open,
and what it remembers may be about an older line. It is never asked then: an empty line adds a line
feed to the text, which neither opens nor closes anything, so a text that is open with the empty
line was open without it.

## Results

* `Ends`: what finishes an entry.
* `push_of_holds`: what one more line does to a draft that holds its lines.
* `readEntry_of_not_ends`: lines that finish nothing are collected.
* `readEntry_ends_first`: an entry ends with the first line that finishes it.
-/

namespace LoxLexer

/-- What finishes an entry of these lines: an empty line, or a second one while a string or a block
comment is open, or a semicolon when the brackets are balanced. -/
inductive Ends (lines : List String) : Prop
  | blanks : ["", ""] <:+ lines → (scan (joinLines lines)).isOpen = true → Ends lines
  | blank : lines.getLast? = some "" → (scan (joinLines lines)).isOpen = false → Ends lines
  | statement : (scan (joinLines lines)).isOpen = false →
      (scan (joinLines lines)).proper.getLast?.map Token.kind = some .semicolon →
      (scan (joinLines lines)).count .leftBrace = (scan (joinLines lines)).count .rightBrace →
      (scan (joinLines lines)).count .leftParen = (scan (joinLines lines)).count .rightParen →
      Ends lines

theorem ends_iff {lines : List String} :
    Ends lines ↔
      ((scan (joinLines lines)).isOpen = true ∧ ["", ""] <:+ lines) ∨
      ((scan (joinLines lines)).isOpen = false ∧ (lines.getLast? = some "" ∨
        (scan (joinLines lines)).proper.getLast?.map Token.kind = some .semicolon ∧
          (scan (joinLines lines)).count .leftBrace = (scan (joinLines lines)).count .rightBrace ∧
          (scan (joinLines lines)).count .leftParen =
            (scan (joinLines lines)).count .rightParen)) := by
  constructor
  · intro h
    cases h with
    | blanks hlines hopen => exact Or.inl ⟨hopen, hlines⟩
    | blank hlast hclosed => exact Or.inr ⟨hclosed, Or.inl hlast⟩
    | statement hclosed hsemicolon hbraces hparens =>
      exact Or.inr ⟨hclosed, Or.inr ⟨hsemicolon, hbraces, hparens⟩⟩
  · rintro (⟨hopen, hlines⟩ | ⟨hclosed, hlast | ⟨hsemicolon, hbraces, hparens⟩⟩)
    · exact .blanks hlines hopen
    · exact .blank hlast hclosed
    · exact .statement hclosed hsemicolon hbraces hparens

instance (lines : List String) : Decidable (Ends lines) := decidable_of_iff _ ends_iff.symm

/-! ## Open and closed -/

/-- An empty line neither opens nor closes anything. -/
theorem isOpen_joinLines_concat_empty (lines : List String) :
    (scan (joinLines (lines ++ [""]))).isOpen = (scan (joinLines lines)).isOpen := by
  by_cases hlines : lines = []
  · subst hlines
    rfl
  · rw [joinLines_append hlines (List.cons_ne_nil _ _), ← isOpen_append_lineFeed (joinLines lines)]
    congr 2
    exact String.append_empty

theorem not_ends_nil : ¬ Ends [] := by decide +kernel

section
variable {lines : List String}

theorem ends_iff_of_open (h : (scan (joinLines lines)).isOpen = true) :
    Ends lines ↔ ["", ""] <:+ lines := by
  rw [ends_iff, h]
  simp

/-- A short text that is not open is finished as the last test of the prompt finds. -/
theorem ends_iff_of_closed (h : (scan (joinLines lines)).isOpen = false)
    (hshort : (lines.map String.length).sum < 2 ^ 31) :
    Ends lines ↔ lines.getLast? = some "" ∨
      ((scan (joinLines lines)).endsWithSemicolon &&
        (scan (joinLines lines)).isBalanced) = true := by
  have hcount : ∀ c ∈ ['{', '}', '(', ')'], (joinLines lines).toList.count c < 2 ^ 31 := by
    intro c hc
    have hlf : c ≠ '\n' := by
      rintro rfl
      simp at hc
    exact (count_joinLines_le hlf lines).trans_lt hshort
  have hsemicolon : (scan (joinLines lines)).endsWithSemicolon = true ↔
      (scan (joinLines lines)).proper.getLast?.map Token.kind = some .semicolon := by
    unfold Scan.endsWithSemicolon
    cases (scan (joinLines lines)).proper.getLast? <;> simp
  rw [Bool.and_eq_true, hsemicolon, isBalanced_iff hcount, ends_iff, h]
  simp

end

/-! ## Drafts -/

/-- A draft holds the lines read so far, and knows whether the last of them is empty while its text
is open. -/
structure Draft.Holds (d : Draft) (read : List String) : Prop extends d.Collects read where
  afterBlank : (scan (joinLines read)).isOpen = true →
    (d.afterBlank = true ↔ read.getLast? = some "")

theorem holds_empty : Draft.empty.Holds [] := by
  refine ⟨collects_empty, ?_⟩
  intro hopen
  have hclosed : (scan (joinLines [])).isOpen = false := isOpen_empty
  rw [hclosed] at hopen
  cases hopen

section
variable {d : Draft} {read : List String}

/-- With an open text, the draft knows whether a line is the second empty one in a row. -/
theorem ends_iff_of_holds {line : String} (h : d.Holds read)
    (hopen : (scan (joinLines (read ++ [line]))).isOpen = true) :
    Ends (read ++ [line]) ↔ (line.isEmpty && d.afterBlank) = true := by
  rw [ends_iff_of_open hopen, Bool.and_eq_true, String.isEmpty_iff]
  constructor
  · rintro ⟨before, hbefore⟩
    have hsplit : (before ++ [""]) ++ [""] = read ++ [line] := by simpa using hbefore
    obtain ⟨rfl, hline⟩ := List.append_inj' hsplit rfl
    obtain rfl : "" = line := by simpa using hline
    rw [isOpen_joinLines_concat_empty] at hopen
    exact ⟨rfl, (h.afterBlank hopen).mpr (by simp)⟩
  · rintro ⟨rfl, hblank⟩
    rw [isOpen_joinLines_concat_empty] at hopen
    obtain ⟨before, rfl⟩ := List.getLast?_eq_some_iff.mp ((h.afterBlank hopen).mp hblank)
    exact ⟨before, by simp⟩

/-- **One more line** finishes the entry if the lines with it are finished, and is collected if
not. -/
theorem push_of_holds (h : d.Holds read) (line : String)
    (hshort : ((read ++ [line]).map String.length).sum < 2 ^ 31) :
    (Ends (read ++ [line]) ∧ d.push line = .finished (joinLines (read ++ [line]))) ∨
      (¬ Ends (read ++ [line]) ∧
        ∃ next, d.push line = .reading next ∧ next.Holds (read ++ [line])) := by
  have hlast : (read ++ [line]).getLast? = some "" ↔ line.isEmpty = true := by simp
  cases hopen : (scan (joinLines (read ++ [line]))).isOpen with
  | true =>
    have hpush := push_of_open h.toCollects hopen
    rw [ends_iff_of_holds h hopen]
    by_cases hsecond : (line.isEmpty && d.afterBlank) = true
    · rw [if_pos hsecond] at hpush
      exact Or.inl ⟨hsecond, hpush⟩
    · rw [if_neg hsecond] at hpush
      exact Or.inr ⟨hsecond, _, hpush, collects_of_push h.toCollects hpush, fun _ => hlast.symm⟩
  | false =>
    have hpush := push_of_closed h.toCollects hopen
    rw [ends_iff_of_closed hopen hshort, hlast, ← Bool.or_eq_true]
    by_cases hends : (line.isEmpty || (scan (joinLines (read ++ [line]))).endsWithSemicolon &&
        (scan (joinLines (read ++ [line]))).isBalanced) = true
    · rw [if_pos hends] at hpush
      exact Or.inl ⟨hends, hpush⟩
    · rw [if_neg hends] at hpush
      refine Or.inr ⟨hends, _, hpush, collects_of_push h.toCollects hpush, ?_⟩
      intro hopen'
      rw [hopen] at hopen'
      cases hopen'

end

/-! ## Entries -/

section
variable {ε : Type}

/-- **Lines that finish nothing are collected**, whatever comes behind them. -/
theorem readEntry_of_not_ends {d : Draft} {read lines : List String} (h : d.Holds read)
    (hshort : ((read ++ lines).map String.length).sum < 2 ^ 31)
    (hgo : ∀ first, first <+: lines → first ≠ [] → ¬ Ends (read ++ first)) :
    ∃ next, next.Holds (read ++ lines) ∧
      ∀ rest : List (Line ε), readEntry d (lines.map .ok ++ rest) = readEntry next rest := by
  induction lines generalizing d read with
  | nil => exact ⟨d, by rwa [List.append_nil], fun _ => rfl⟩
  | cons line lines ih =>
    have hsplit : read ++ line :: lines = read ++ [line] ++ lines := by simp
    have hline : ((read ++ [line]).map String.length).sum < 2 ^ 31 := by
      rw [hsplit, List.map_append, List.sum_append] at hshort
      omega
    have hnot : ¬ Ends (read ++ [line]) :=
      hgo [line] (List.prefix_append [line] lines) (List.cons_ne_nil _ _)
    obtain ⟨hends, -⟩ | ⟨-, next, hpush, hnext⟩ := push_of_holds h line hline
    · exact absurd hends hnot
    · have hgo' : ∀ first, first <+: lines → first ≠ [] → ¬ Ends (read ++ [line] ++ first) := by
        intro first hfirst _
        have := hgo (line :: first) ((List.prefix_cons_inj line).mpr hfirst) (List.cons_ne_nil _ _)
        simpa using this
      obtain ⟨last, hlast, hrest⟩ := ih hnext (by rwa [← hsplit]) hgo'
      refine ⟨last, by rwa [hsplit], ?_⟩
      intro rest
      rw [List.map_cons, List.cons_append, readEntry, hpush]
      exact hrest rest

/-- The line that finishes an entry is the last that is read. -/
theorem readEntry_of_ends {before : List String} {line : String}
    (hshort : ((before ++ [line]).map String.length).sum < 2 ^ 31)
    (hgo : ∀ first, first <+: before → first ≠ [] → ¬ Ends first)
    (hends : Ends (before ++ [line])) (rest : List (Line ε)) :
    readEntry .empty ((before ++ [line]).map .ok ++ rest) =
      some (.ok (joinLines (before ++ [line])), rest) := by
  have hbefore : (before.map String.length).sum < 2 ^ 31 := by
    rw [List.map_append, List.sum_append] at hshort
    omega
  obtain ⟨next, hnext, hread⟩ := readEntry_of_not_ends holds_empty hbefore hgo
  obtain ⟨-, hpush⟩ | ⟨hnot, -⟩ := push_of_holds hnext line hshort
  · rw [List.map_append, List.append_assoc, hread, List.map_cons, List.map_nil, List.cons_append,
      List.nil_append, readEntry, hpush]
    rfl
  · exact absurd hends hnot

/-- **An entry ends with the first line that finishes it**, and only then. If `n` is the least
number of lines that finish an entry, those lines are the entry and reading goes on behind them,
whatever comes there. If no number of lines does, all of them are the entry, and there is none when
there are no lines. -/
theorem readEntry_ends_first (lines : List String)
    (hshort : (lines.map String.length).sum < 2 ^ 31) :
    (∀ n, Ends (lines.take n) → (∀ m < n, ¬ Ends (lines.take m)) → ∀ rest : List (Line ε),
      readEntry .empty (lines.map .ok ++ rest) =
        some (.ok (joinLines (lines.take n)), (lines.drop n).map .ok ++ rest)) ∧
    ((∀ n, ¬ Ends (lines.take n)) →
      readEntry .empty (lines.map (Except.ok : String → Line ε)) =
        if lines = [] then none else some (.ok (joinLines lines), [])) := by
  constructor
  · intro n hends hfirst rest
    cases n with
    | zero => exact absurd hends not_ends_nil
    | succ n =>
      have hn : n < lines.length := by
        by_contra hn
        have hall : lines.take (n + 1) = lines.take n := by
          rw [List.take_of_length_le (by omega), List.take_of_length_le (by omega)]
        exact hfirst n (Nat.lt_succ_self n) (hall ▸ hends)
      have hsplit := List.take_append_drop (n + 1) lines
      have htake : lines.take (n + 1) = lines.take n ++ [lines[n]] := by simp
      have hshort' : ((lines.take (n + 1)).map String.length).sum < 2 ^ 31 := by
        rw [← hsplit, List.map_append, List.sum_append] at hshort
        omega
      have hgo : ∀ first, first <+: lines.take n → first ≠ [] → ¬ Ends first := by
        intro first hfront _
        rw [List.prefix_iff_eq_take.mp (hfront.trans (List.take_prefix n lines))]
        exact hfirst _ (Nat.lt_succ_of_le (hfront.length_le.trans (List.length_take_le n lines)))
      conv_lhs => rw [← hsplit, List.map_append, List.append_assoc]
      rw [htake] at hends hshort' ⊢
      exact readEntry_of_ends hshort' hgo hends _
  · intro hnone
    have hgo : ∀ first, first <+: lines → first ≠ [] → ¬ Ends ([] ++ first) := by
      intro first hfront _
      rw [List.nil_append, List.prefix_iff_eq_take.mp hfront]
      exact hnone _
    obtain ⟨next, hnext, hread⟩ := readEntry_of_not_ends holds_empty hshort hgo
    have hend := hread []
    rw [List.append_nil] at hend
    rw [hend, readEntry, hnext.text, List.nil_append]
    by_cases hlines : lines = []
    · subst hlines
      rfl
    · have htext := hnext.text_ne (by rwa [List.nil_append])
      rw [List.nil_append] at htext
      rw [if_neg hlines, if_neg (by rwa [String.isEmpty_iff])]

end

/-- A string stays open over one empty line and is given up at the second in a row; a line that was
empty before the string was closed in between does not count. -/
theorem readEntry_of_open_string :
    (["\"", "", "\" + \"", "", "", "x"].map String.length).sum < 2 ^ 31 ∧
      Ends (["\"", "", "\" + \"", "", "", "x"].take 5) ∧
      (∀ m < 5, ¬ Ends (["\"", "", "\" + \"", "", "", "x"].take m)) ∧
      readEntry .empty (["\"", "", "\" + \"", "", "", "x"].map .ok ++ []) =
        some (.ok "\"\n\n\" + \"\n\n", [(.ok "x" : Line)]) := by
  have hshort : (["\"", "", "\" + \"", "", "", "x"].map String.length).sum < 2 ^ 31 := by
    decide +kernel
  have hends : Ends (["\"", "", "\" + \"", "", "", "x"].take 5) := by decide +kernel
  have hfirst : ∀ m < 5, ¬ Ends (["\"", "", "\" + \"", "", "", "x"].take m) := by decide +kernel
  exact ⟨hshort, hends, hfirst, (readEntry_ends_first _ hshort).1 5 hends hfirst []⟩

end LoxLexer
