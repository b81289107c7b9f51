import LoxLexer.Proofs.Program.Outcome

/-!
# The prompt, line by line

A command line cannot wait for the end of the input: it replies to one line after the other, and an
entry is answered before the next line is typed. What it has still to answer when it holds a draft
and lines are left (`entriesFrom`) is the entry that the draft and the first of them make, and the
entries after it. Replying to a line is one step of reading that entry, so the replies put together
are the answers to the entries of the whole input.

## Results

* `converse_eq_answerEntries`: the replies to lines, from any draft on.
* `runPrompt_eq_converse`: replying line by line to a stream that is read up to a line feed at a
  time is a run at the prompt.
-/

namespace LoxLexer

/-! ## Entries still to come -/

/-- The entries that a draft and the lines after it come to. -/
def entriesFrom {ε : Type} (d : Draft) (input : List (Line ε)) : List (Line ε) :=
  match readEntry d input with
  | none => []
  | some (item, rest) => item :: entries rest

theorem entriesFrom_empty {ε : Type} (input : List (Line ε)) :
    entriesFrom .empty input = entries input := by
  unfold entriesFrom
  split
  · next h => exact (entries_of_readEntry_eq_none h).symm
  · next h => exact (entries_of_readEntry h).symm

theorem entriesFrom_nil (d : Draft) :
    entriesFrom d ([] : List Line) = if d.text.isEmpty then [] else [.ok d.text] := by
  unfold entriesFrom
  rw [readEntry]
  cases d.text.isEmpty <;> simp

theorem entriesFrom_reading {ε : Type} {d next : Draft} {line : String}
    (h : d.push line = .reading next) (rest : List (Line ε)) :
    entriesFrom d (.ok line :: rest) = entriesFrom next rest := by
  unfold entriesFrom
  rw [readEntry, h]

theorem entriesFrom_finished {ε : Type} {d : Draft} {line entry : String}
    (h : d.push line = .finished entry) (rest : List (Line ε)) :
    entriesFrom d (.ok line :: rest) = .ok entry :: entriesFrom .empty rest := by
  rw [entriesFrom_empty]
  unfold entriesFrom
  rw [readEntry, h]

/-! ## Replies -/

/-- An entry is answered the same by a reporter that has not been used. -/
theorem answerEntries_new (entry : String) :
    answerEntries "" .new [.ok entry] =
      ⟨listing (scan entry).tokens ++ invitation, (scan entry).report, .exit 0⟩ := by
  have hanswer := answerEntries_cons_ok "" "" entry []
  rwa [String.empty_append, String.empty_append] at hanswer

/-- **Replies are answers to entries.** From a draft on, the replies to lines are the answers to the
entries that the draft and the lines come to. -/
theorem converse_eq_answerEntries (stdout stderr : String) (d : Draft) (input : List Line) :
    converse stdout stderr d input =
      answerEntries stdout ⟨⟨stderr, true⟩, false⟩ (entriesFrom d input) := by
  induction input generalizing stdout stderr d with
  | nil =>
    rw [converse, entriesFrom_nil, Draft.close]
    split
    · simp [answerEntries, Reporter.new, Sink.empty]
    · rw [answerEntries_new, answerEntries_cons_ok, answerEntries]
  | cons line rest ih =>
    rw [converse]
    cases line with
    | error e => simp [Draft.reply, entriesFrom, readEntry, answerEntries]
    | ok line =>
      cases hpush : d.push line with
      | reading next =>
        simp only [Draft.reply, hpush, String.append_empty]
        rw [ih, entriesFrom_reading hpush]
      | finished entry =>
        simp only [Draft.reply, hpush, answerEntries_new]
        rw [ih, entriesFrom_finished hpush, answerEntries_cons_ok]

/-! ## A whole conversation -/

/-- **A run at the prompt is a conversation**: the invitation, and the replies to the lines as they
are read, each piece up to a line feed and the last up to the end of the input. -/
theorem runPrompt_eq_converse (pieces : List ByteArray) (last : ByteArray) :
    runPrompt (pieces.foldr (fun piece rest => piece.push 0x0A ++ rest) last) =
      converse invitation "" .empty
        (pieces.flatMap (fun piece => decodeLines (piece.push 0x0A)) ++ decodeLines last) := by
  have hlines : decodeLines (pieces.foldr (fun piece rest => piece.push 0x0A ++ rest) last) =
      pieces.flatMap (fun piece => decodeLines (piece.push 0x0A)) ++ decodeLines last := by
    induction pieces with
    | nil => rfl
    | cons piece pieces ih =>
      rw [List.foldr_cons, decodeLines_append_lineFeed, ih, List.flatMap_cons, List.append_assoc]
  rw [converse_eq_answerEntries, entriesFrom_empty, ← hlines]
  rfl

end LoxLexer
