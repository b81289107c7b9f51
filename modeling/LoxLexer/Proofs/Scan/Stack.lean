import LoxLexer.Proofs.Scan.Append
import LoxLexer.Proofs.Text.Lines

/-!
# Texts that stand below each other

The scan of texts joined by line feeds is made up of the scans of the texts, the lines counted
through, as long as nothing is left open in any text but the last.

## Results

* `stacked`: what is found in each of several texts, with the lines counted through all of them.
* `scan_joinLines`: the scan of joined texts is stacked from the scans of the texts.
-/

namespace LoxLexer

/-- How many lines there are in the texts in front of the `i`-th. -/
def linesBefore (texts : List String) (i : Nat) : Nat := ((texts.take i).map lineCount).sum

/-- What is found in each of several texts, in order, every find moved on by the lines of the texts
in front of its own. -/
def stacked {α : Type} (found : Scan → List α) (shift : Nat → α → α) (texts : List String) :
    List α :=
  texts.zipIdx.flatMap fun (text, i) => (found (scan text)).map (shift (linesBefore texts i))

section
variable {α : Type} {found : Scan → List α} {shift : Nat → α → α}

theorem stacked_cons (hzero : ∀ a, shift 0 a = a)
    (hadd : ∀ m n a, shift (m + n) a = shift m (shift n a)) (text : String) (texts : List String) :
    stacked found shift (text :: texts) =
      found (scan text) ++ (stacked found shift texts).map (shift (lineCount text)) := by
  have hlines : ∀ i,
      linesBefore (text :: texts) (i + 1) = lineCount text + linesBefore texts i := by
    intro i
    simp [linesBefore]
  unfold stacked
  rw [List.zipIdx_cons, List.flatMap_cons]
  congr 1
  · exact (List.map_congr_left fun a _ => hzero a).trans (List.map_id _)
  · rw [Nat.zero_add, List.zipIdx_succ, List.flatMap_map, List.map_flatMap]
    refine List.flatMap_congr fun ⟨below, i⟩ _ => ?_
    dsimp only
    rw [List.map_map, hlines]
    exact List.map_congr_left fun a _ => hadd _ _ a

end

theorem Token.shift_zero (t : Token) : t.shift 0 = t := rfl

theorem Token.shift_add (m n : Nat) (t : Token) : t.shift (m + n) = (t.shift n).shift m := by
  simp [Token.shift, Nat.add_comm, Nat.add_left_comm]

theorem Diagnostic.shift_zero (d : Diagnostic) : d.shift 0 = d := rfl

theorem Diagnostic.shift_add (m n : Nat) (d : Diagnostic) :
    d.shift (m + n) = (d.shift n).shift m := by
  simp [Diagnostic.shift, Nat.add_comm, Nat.add_left_comm]

/-- **The scan of joined texts** is stacked from their scans, if nothing is open at the end of any
of them but the last. -/
theorem scan_joinLines {texts : List String}
    (h : ∀ text ∈ texts.dropLast, (scan text).isOpen = false) :
    (scan (joinLines texts)).proper = stacked Scan.proper Token.shift texts ∧
      (scan (joinLines texts)).errors = stacked Scan.errors Diagnostic.shift texts := by
  induction texts with
  | nil =>
    have hlocated : located (joinLines []).toList = [] := by simp [joinLines, located]
    rw [proper_scan, errors_scan, hlocated]
    exact ⟨rfl, rfl⟩
  | cons text texts ih =>
    rw [stacked_cons Token.shift_zero Token.shift_add,
      stacked_cons Diagnostic.shift_zero Diagnostic.shift_add]
    by_cases htexts : texts = []
    · subst htexts
      simp [joinLines, stacked]
    · rw [List.dropLast_cons_of_ne_nil htexts] at h
      have hfirst := h text List.mem_cons_self
      obtain ⟨hproper, herrors⟩ := ih fun t ht => h t (List.mem_cons_of_mem _ ht)
      rw [joinLines_cons htexts, (scan_append_lineFeed hfirst).1, (scan_append_lineFeed hfirst).2,
        hproper, herrors]
      exact ⟨rfl, rfl⟩

end LoxLexer
