import LoxLexer.Proofs.Prompt.Blocks
import LoxLexer.Proofs.Scan.Stack

/-!
# Entries and the text they come from

The entries of a text are its lines in groups. What they scan to is then what the text scans to, as
long as no entry but the last leaves a string or a block comment open.

## Results

* `entries_stack`: a text is scanned the same at the prompt as in one piece.
-/

namespace LoxLexer

/-- **The prompt cuts no token.** The entries of a text are texts. If no entry but the last leaves a
string or a block comment open, the tokens and the diagnostics of the whole text are those of the
entries in order, with the lines counted through. -/
theorem entries_stack (text : String) (h : ¬ ['\r', '\n'] <:+: text.toList) :
    ∃ texts : List String, entries (decodeLines text.toUTF8) = texts.map .ok ∧
      ((∀ entry ∈ texts.dropLast, (scan entry).isOpen = false) →
        (scan text).proper = stacked Scan.proper Token.shift texts ∧
          (scan text).errors = stacked Scan.errors Diagnostic.shift texts) := by
  obtain ⟨groups, hflatten, hne, hentries⟩ := exists_groups_entries (textLines text)
  refine ⟨groups.map joinLines, ?_, ?_⟩
  · rw [decodeLines_toUTF8, hentries, List.map_map]
    rfl
  · intro hclosed
    have hscan := scan_joinLines hclosed
    rw [joinLines_map_joinLines hne, hflatten] at hscan
    rcases eq_joinLines_textLines h with htext | htext
    · rwa [← htext] at hscan
    · have hfinal := scan_append_final_lineFeed (joinLines (textLines text))
      rw [← htext] at hfinal
      exact ⟨hfinal.1.trans hscan.1, hfinal.2.trans hscan.2⟩

/-- Two entries with a string over two lines in the second. -/
theorem entries_stack_of_string :
    ¬ ['\r', '\n'] <:+: "a;\n\"b\nc\"!;\n".toList ∧
      entries (decodeLines "a;\n\"b\nc\"!;\n".toUTF8) = ["a;", "\"b\nc\"!;"].map .ok ∧
      (scan "a;\n\"b\nc\"!;\n").proper =
        stacked Scan.proper Token.shift ["a;", "\"b\nc\"!;"] := by
  have hreturns : ¬ ['\r', '\n'] <:+: "a;\n\"b\nc\"!;\n".toList := by decide +kernel
  have hentries : entries (decodeLines "a;\n\"b\nc\"!;\n".toUTF8) =
      ["a;", "\"b\nc\"!;"].map .ok := by decide +kernel
  obtain ⟨texts, htexts, hscan⟩ := entries_stack _ hreturns
  have hinj : Function.Injective (Except.ok : String → Line) := fun _ _ => Except.ok.inj
  obtain rfl := (List.map_injective_iff.mpr hinj) (htexts.symm.trans hentries)
  exact ⟨hreturns, hentries, (hscan (by decide +kernel)).1⟩

end LoxLexer
