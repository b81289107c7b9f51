import Mathlib.Data.List.Forall2
import LoxLexer.Proofs.Scan.Append
import LoxLexer.Proofs.Text.Lines

/-!
# Entries are blocks of lines

A prompt takes its lines in blocks, one after the other and all of them. A block of decoded lines is
an entry, the lines joined; a block that ends with a line that could not be read is that error, and
the lines in front of it are lost with it. No line is in two blocks or in none, also where an entry
has no text: a draft without text has no lines (`Draft.Collects`), so the end of the input never
takes an empty line for no line. The errors are of any type, decoding errors or others.

## Results

* `Draft.Collects`: a draft holds the lines read so far, joined.
* `push_of_collects`: one more line finishes the entry or is collected.
* `exists_block_of_collects`: reading an entry takes a block, and looks at nothing behind it.
* `exists_blocks_entries`: the items of a prompt are its blocks, and a prompt may be left off and
  taken up again between two of them.
* `exists_groups_entries`: the blocks of lines that all decode are groups of lines.
* `entries_split_lines`: the prompt loses no line and duplicates none.
-/

namespace LoxLexer

/-! ## Drafts -/

/-- A draft holds the lines read so far, joined. Once a line was read there is a text: an empty line
in front of all others is an entry by itself. -/
structure Draft.Collects (d : Draft) (read : List String) : Prop where
  text : d.text = joinLines read
  isFresh : d.isFresh = read.isEmpty
  text_ne : read ≠ [] → joinLines read ≠ ""

theorem collects_empty : Draft.empty.Collects [] := ⟨rfl, rfl, fun h => absurd rfl h⟩

section
variable {d : Draft} {read : List String}

theorem textWith_of_collects (h : d.Collects read) (line : String) :
    d.textWith line = joinLines (read ++ [line]) := by
  unfold Draft.textWith
  rw [h.text, h.isFresh]
  by_cases hread : read = []
  · subst hread
    simp [joinLines]
  · rw [joinLines_append hread (List.cons_ne_nil _ _), if_neg (by simpa using hread)]
    rfl

/-- While the text is open, only a second empty line ends the entry. -/
theorem push_of_open {line : String} (h : d.Collects read)
    (hopen : (scan (joinLines (read ++ [line]))).isOpen = true) :
    d.push line =
      if line.isEmpty && d.afterBlank then .finished (joinLines (read ++ [line]))
      else .reading ⟨joinLines (read ++ [line]), false, line.isEmpty⟩ := by
  unfold Draft.push
  simp only [textWith_of_collects h, hopen]
  cases line.isEmpty <;> cases d.afterBlank <;> rfl

theorem push_of_closed {line : String} (h : d.Collects read)
    (hclosed : (scan (joinLines (read ++ [line]))).isOpen = false) :
    d.push line =
      if line.isEmpty || ((scan (joinLines (read ++ [line]))).endsWithSemicolon &&
          (scan (joinLines (read ++ [line]))).isBalanced) then
        .finished (joinLines (read ++ [line]))
      else .reading ⟨joinLines (read ++ [line]), false, d.afterBlank⟩ := by
  unfold Draft.push
  simp only [textWith_of_collects h, hclosed]
  rfl

/-- A line ends the entry, or is collected with the others. -/
theorem push_of_collects (h : d.Collects read) (line : String) :
    d.push line = .finished (joinLines (read ++ [line])) ∨
      ∃ next, d.push line = .reading next ∧ next.Collects (read ++ [line]) := by
  by_cases hempty : joinLines (read ++ [line]) = ""
  · have hline : line = "" := by
      rcases joinLines_eq_empty_iff.mp hempty with hnil | hone
      · simp at hnil
      · simpa using congrArg List.getLast? hone
    left
    rw [push_of_closed h (by rw [hempty]; exact isOpen_empty), hline]
    rfl
  · have hcollects : ∀ afterBlank,
        Draft.Collects ⟨joinLines (read ++ [line]), false, afterBlank⟩ (read ++ [line]) := by
      intro afterBlank
      exact ⟨rfl, by simp, fun _ => hempty⟩
    cases hopen : (scan (joinLines (read ++ [line]))).isOpen with
    | true =>
      rw [push_of_open h hopen]
      split
      · exact Or.inl rfl
      · exact Or.inr ⟨_, rfl, hcollects _⟩
    | false =>
      rw [push_of_closed h hopen]
      split
      · exact Or.inl rfl
      · exact Or.inr ⟨_, rfl, hcollects _⟩

theorem collects_of_push {next : Draft} {line : String} (h : d.Collects read)
    (hpush : d.push line = .reading next) : next.Collects (read ++ [line]) := by
  rcases push_of_collects h line with hfinished | ⟨_, hreading, hcollects⟩
  · rw [hfinished] at hpush
    cases hpush
  · rw [hreading] at hpush
    cases hpush
    exact hcollects

end

/-! ## Blocks -/

section
variable {ε : Type}

/-- What a block of lines comes to: decoded lines, one at least, to an entry, and any number of
them with a line behind them that could not be read to that line, with the error it was read with. -/
inductive IsBlock : List (Line ε) → Line ε → Prop
  | entry {lines : List String} : lines ≠ [] → IsBlock (lines.map .ok) (.ok (joinLines lines))
  | failure (lost : List String) (e : ε) : IsBlock (lost.map .ok ++ [.error e]) (.error e)

theorem ne_nil_of_mem_blocks {blocks : List (List (Line ε))} {items : List (Line ε)}
    (h : List.Forall₂ IsBlock blocks items) : ∀ block ∈ blocks, block ≠ [] := by
  induction h with
  | nil => simp
  | cons hblock _ ih =>
    refine List.forall_mem_cons.mpr ⟨?_, ih⟩
    cases hblock with
    | entry hne => simpa using hne
    | failure => simp

/-- **Reading an entry takes a block**, the lines that were collected before in front of it. If
lines are left, any other lines could stand there. -/
theorem exists_block_of_collects {d : Draft} {read : List String} (h : d.Collects read)
    (input : List (Line ε)) (hne : read ≠ [] ∨ input ≠ []) :
    ∃ block item after, input = block ++ after ∧ IsBlock (read.map .ok ++ block) item ∧
      readEntry d input = some (item, after) ∧
      (after ≠ [] → ∀ other, readEntry d (block ++ other) = some (item, other)) := by
  induction input generalizing d read with
  | nil =>
    have hread : read ≠ [] := hne.resolve_right fun h => h rfl
    have htext : d.text ≠ "" := h.text ▸ h.text_ne hread
    refine ⟨[], .ok (joinLines read), [], rfl, ?_, ?_, fun h => absurd rfl h⟩
    · rw [List.append_nil]
      exact .entry hread
    · rw [readEntry, if_neg (by simpa using htext), h.text]
  | cons line input ih =>
    cases line with
    | error e =>
      exact ⟨[.error e], .error e, input, rfl, .failure read e, by rw [readEntry],
        fun _ other => by rw [List.singleton_append, readEntry]⟩
    | ok line =>
      have hread : read.map Except.ok ++ [(.ok line : Line ε)] = (read ++ [line]).map .ok := by simp
      rcases push_of_collects h line with hpush | ⟨next, hpush, hnext⟩
      · have hread' : ∀ other : List (Line ε), readEntry d (.ok line :: other) =
            some (.ok (joinLines (read ++ [line])), other) := by
          intro other
          rw [readEntry, hpush]
        refine ⟨[.ok line], _, input, rfl, ?_, hread' input, fun _ => hread'⟩
        rw [hread]
        exact .entry (by simp)
      · have hstep : ∀ other : List (Line ε),
            readEntry d (.ok line :: other) = readEntry next other := by
          intro other
          rw [readEntry, hpush]
        obtain ⟨block, item, after, rfl, hblock, hentry, hother⟩ := ih hnext (Or.inl (by simp))
        refine ⟨.ok line :: block, item, after, rfl, ?_, (hstep _).trans hentry, ?_⟩
        · rwa [← hread, List.append_assoc] at hblock
        · intro hafter other
          exact (hstep _).trans (hother hafter other)

/-! ## Entries -/

/-- **The items of a prompt are its blocks**, in order, and no line is between two of them. The
first items are those of the lines in the first blocks, and the others those of a fresh prompt with
the lines behind. -/
theorem exists_blocks_entries (input : List (Line ε)) :
    ∃ blocks : List (List (Line ε)), blocks.flatten = input ∧
      List.Forall₂ IsBlock blocks (entries input) ∧
      ∀ n, entries (blocks.take n).flatten = (entries input).take n ∧
        entries (blocks.drop n).flatten = (entries input).drop n := by
  by_cases hinput : input = []
  · subst hinput
    exact ⟨[], rfl, by rw [entries_nil]; exact .nil, fun n => by simp⟩
  · obtain ⟨block, item, after, hsplit, hblock, hentry, hother⟩ :=
      exists_block_of_collects collects_empty input (Or.inr hinput)
    rw [List.map_nil, List.nil_append] at hblock
    have hshorter : after.length < input.length := length_rest_lt_of_readEntry hentry
    obtain ⟨blocks, hflatten, hblocks, hresume⟩ := exists_blocks_entries after
    have hentries : entries input = item :: entries after := entries_of_readEntry hentry
    refine ⟨block :: blocks, by rw [List.flatten_cons, hflatten, hsplit],
      by rw [hentries]; exact .cons hblock hblocks, ?_⟩
    intro n
    cases n with
    | zero =>
      rw [List.take_zero, List.take_zero, List.drop_zero, List.drop_zero, List.flatten_nil,
        entries_nil, List.flatten_cons, hflatten, ← hsplit]
      exact ⟨rfl, rfl⟩
    | succ n =>
      have hfront : readEntry .empty (block ++ (blocks.take n).flatten) =
          some (item, (blocks.take n).flatten) := by
        by_cases hafter : after = []
        · -- an entry that the end of the input finishes has no block behind it
          subst hafter
          rw [entries_nil] at hblocks
          cases hblocks
          rwa [List.take_nil, List.flatten_nil, ← hsplit]
        · exact hother hafter _
      rw [hentries, List.take_succ_cons, List.take_succ_cons, List.flatten_cons,
        entries_of_readEntry hfront, List.drop_succ_cons, List.drop_succ_cons, (hresume n).1]
      exact ⟨rfl, (hresume n).2⟩
termination_by input.length

/-- Blocks that come to entries are groups of decoded lines, each of them joined. -/
theorem exists_groups_of_blocks {blocks : List (List (Line ε))} {texts : List String}
    (h : List.Forall₂ IsBlock blocks (texts.map .ok)) :
    ∃ groups : List (List String), blocks.flatten = groups.flatten.map .ok ∧
      (∀ g ∈ groups, g ≠ []) ∧ texts = groups.map joinLines := by
  induction texts generalizing blocks with
  | nil =>
    cases h
    exact ⟨[], rfl, by simp, rfl⟩
  | cons text texts ih =>
    rw [List.map_cons] at h
    obtain _ | ⟨hblock, hblocks⟩ := h
    obtain ⟨groups, hflatten, hne, rfl⟩ := ih hblocks
    cases hblock with
    | @entry lines hlines =>
      refine ⟨lines :: groups, by simp [hflatten], ?_, rfl⟩
      intro g hg
      rcases List.mem_cons.mp hg with rfl | hg
      · exact hlines
      · exact hne g hg

/-- An error is an item only where it is a line. -/
theorem error_mem_flatten {blocks : List (List (Line ε))} {items : List (Line ε)} {e : ε}
    (h : List.Forall₂ IsBlock blocks items) (he : .error e ∈ items) :
    .error e ∈ blocks.flatten := by
  induction h with
  | nil => cases he
  | cons hblock _ ih =>
    rw [List.flatten_cons, List.mem_append]
    rcases List.mem_cons.mp he with rfl | he
    · cases hblock with
      | failure => exact Or.inl (by simp)
    · exact Or.inr (ih he)

/-- Items are entries up to the first that is none. -/
theorem exists_texts_front (items : List (Line ε)) :
    ∃ texts : List String, items = texts.map .ok ∨
      ∃ e later, items = texts.map .ok ++ .error e :: later := by
  induction items with
  | nil => exact ⟨[], Or.inl rfl⟩
  | cons item items ih =>
    cases item with
    | error e => exact ⟨[], Or.inr ⟨e, items, rfl⟩⟩
    | ok text =>
      obtain ⟨texts, rfl | ⟨e, later, rfl⟩⟩ := ih
      · exact ⟨text :: texts, Or.inl rfl⟩
      · exact ⟨text :: texts, Or.inr ⟨e, later, rfl⟩⟩

/-- In front of the first line that is no entry stand the lines of the entries, and lines that make
none. -/
theorem exists_lines_of_failure {input later : List (Line ε)} {texts : List String} {e : ε}
    (h : entries input = texts.map .ok ++ .error e :: later) :
    ∃ (read lost : List String) (after : List (Line ε)),
      input = read.map .ok ++ lost.map .ok ++ .error e :: after ∧
        entries (read.map (Except.ok : String → Line ε)) = texts.map .ok := by
  obtain ⟨blocks, rfl, hblocks, hresume⟩ := exists_blocks_entries input
  have htake : (entries blocks.flatten).take texts.length = texts.map .ok := by
    rw [h, List.take_left' (List.length_map _)]
  have hdrop : (entries blocks.flatten).drop texts.length = .error e :: later := by
    rw [h, List.drop_left' (List.length_map _)]
  have hfront := List.forall₂_take texts.length hblocks
  have hback := List.forall₂_drop texts.length hblocks
  rw [htake] at hfront
  rw [hdrop] at hback
  obtain ⟨groups, hread, -, -⟩ := exists_groups_of_blocks hfront
  obtain ⟨block, rest, hblock, -, hsplit⟩ := List.forall₂_cons_right_iff.mp hback
  cases hblock with
  | failure lost =>
    refine ⟨groups.flatten, lost, rest.flatten, ?_, ?_⟩
    · conv_lhs => rw [← List.take_append_drop texts.length blocks]
      rw [List.flatten_append, hread, hsplit]
      simp
    · rw [← hread, (hresume texts.length).1, htake]

theorem map_ok_injective : Function.Injective (List.map (Except.ok : String → Line ε)) :=
  List.map_injective_iff.mpr fun _ _ => Except.ok.inj

/-- **Entries of decoded lines are the lines in groups.** -/
theorem exists_groups_entries (lines : List String) :
    ∃ groups : List (List String), groups.flatten = lines ∧ (∀ g ∈ groups, g ≠ []) ∧
      entries (lines.map (Except.ok : String → Line ε)) = groups.map fun g => .ok (joinLines g) := by
  obtain ⟨blocks, hflatten, hblocks, -⟩ :=
    exists_blocks_entries (lines.map (Except.ok : String → Line ε))
  obtain ⟨texts, htexts | ⟨e, later, hitems⟩⟩ :=
    exists_texts_front (entries (lines.map (Except.ok : String → Line ε)))
  · rw [htexts] at hblocks ⊢
    obtain ⟨groups, hgroups, hne, rfl⟩ := exists_groups_of_blocks hblocks
    refine ⟨groups, map_ok_injective (hgroups.symm.trans hflatten), hne, ?_⟩
    rw [List.map_map]
    rfl
  · have hmem : .error e ∈ blocks.flatten := error_mem_flatten hblocks (by simp [hitems])
    rw [hflatten] at hmem
    simp at hmem

/-- **The prompt loses no line and duplicates none.** Whatever errors lines may come with, its items
are blocks of lines that make up all lines in order: an entry is a block of decoded lines, joined,
and an error is an item, the same error, together with decoded lines in front of it. Between any two
blocks the prompt may be left off and taken up again, so behind an error it starts afresh. Lines
that all decode come to entries that are the same text as the lines. -/
theorem entries_split_lines (input : List (Line ε)) :
    (∃ blocks : List (List (Line ε)), blocks.flatten = input ∧ (∀ block ∈ blocks, block ≠ []) ∧
      List.Forall₂ IsBlock blocks (entries input) ∧
      ∀ n, entries (blocks.take n).flatten = (entries input).take n ∧
        entries (blocks.drop n).flatten = (entries input).drop n) ∧
    ∀ lines : List String, lines ≠ [] → input = lines.map .ok →
      ∃ texts : List String, texts ≠ [] ∧ entries input = texts.map .ok ∧
        joinLines texts = joinLines lines := by
  constructor
  · obtain ⟨blocks, hflatten, hblocks, hresume⟩ := exists_blocks_entries input
    exact ⟨blocks, hflatten, ne_nil_of_mem_blocks hblocks, hblocks, hresume⟩
  · rintro lines hlines rfl
    obtain ⟨groups, rfl, hne, hentries⟩ := exists_groups_entries lines
    refine ⟨groups.map joinLines, ?_, ?_, joinLines_map_joinLines hne⟩
    · intro hnil
      rw [List.map_eq_nil_iff.mp hnil] at hlines
      exact hlines rfl
    · rw [hentries, List.map_map]
      rfl

end

/-- An empty line is an entry; a line that was begun is lost with the error behind it, and two errors
are told apart. -/
example : entries [.ok "", .ok "(", .error 5, .error 4, .ok ")", .ok ""] =
    [.ok "", .error 5, .error 4, .ok ")\n"] := by decide +kernel

end LoxLexer
