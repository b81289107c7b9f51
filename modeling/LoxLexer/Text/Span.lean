/-!
# Runs of characters

Results:
* `takeWhile_append_of_stop`, `dropWhile_append_of_stop` — a run in front of something that cannot
  continue it is taken whole and nothing more.
* `stopsAt_dropWhile` — what follows a longest run cannot continue it.
-/

namespace LoxLexer

/-- Whether a text is empty or starts with something that `p` refuses. -/
def StopsAt {α : Type} (p : α → Bool) (rest : List α) : Prop := ∀ a ∈ rest.head?, p a = false

theorem stopsAt_dropWhile {α : Type} (p : α → Bool) (text : List α) :
    StopsAt p (text.dropWhile p) := by
  induction text with
  | nil => simp [StopsAt]
  | cons a text ih =>
    rw [List.dropWhile_cons]
    split
    · exact ih
    · next h => simpa [StopsAt] using h

theorem takeWhile_append_of_stop {α : Type} {p : α → Bool} {run rest : List α}
    (hrun : ∀ a ∈ run, p a = true) (hrest : StopsAt p rest) : (run ++ rest).takeWhile p = run := by
  rw [List.takeWhile_append_of_pos hrun]
  cases rest with
  | nil => simp
  | cons a rest => simp [hrest a rfl]

theorem dropWhile_append_of_stop {α : Type} {p : α → Bool} {run rest : List α}
    (hrun : ∀ a ∈ run, p a = true) (hrest : StopsAt p rest) : (run ++ rest).dropWhile p = rest := by
  rw [List.dropWhile_append_of_pos hrun]
  cases rest with
  | nil => simp
  | cons a rest => simp [hrest a rfl]

end LoxLexer
