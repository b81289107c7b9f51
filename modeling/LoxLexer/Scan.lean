import LoxLexer.Scanner.Basic

/-!
# Scanning a source text

`scanReporting` runs the scanner over a whole text and hands every diagnostic on as it is found;
`scan` collects them beside the tokens. Scanning goes on behind a malformed lexeme, and a list of
tokens closes with one end-of-input token on the last line. `scanReporting` is `tokenize`.

Results:
* `scanReporting_eq` — the tokens do not depend on who is told of the diagnostics, and the
  diagnostics handed on are those of `scan` in the same order.
-/

namespace LoxLexer

/-- What a source text was found to hold. -/
structure Scan where
  /-- The tokens read from the text, and the end of input. -/
  tokens : List Token
  errors : List Diagnostic
deriving DecidableEq

/-- The tokens read from the text, without the one that closes the list. -/
def Scan.proper (s : Scan) : List Token := s.tokens.filter fun t => t.kind ≠ .endOfInput

/-- Scans a whole source text and hands every diagnostic to `report` as soon as it is found. -/
def scanReporting {σ : Type} (report : σ → Diagnostic → σ) (state : σ) (source : String) :
    List Token × σ :=
  let (s, state) := Scanner.new.run source report state
  (s.tokens.reverse, state)

/-- Scans a whole source text. -/
def scan (source : String) : Scan :=
  let (tokens, errors) := scanReporting (fun errors d => d :: errors) [] source
  ⟨tokens, errors.reverse⟩

/-! ## Who is told -/

/-- A run leaves the same scanner whoever is told, and tells everyone the same. -/
theorem run_eq_collect {σ : Type} (source : String) (report : σ → Diagnostic → σ) (state : σ)
    (s : Scanner) (errors : List Diagnostic) :
    s.run source report (errors.reverse.foldl report state) =
      let collected := s.run source (fun errors d => d :: errors) errors
      (collected.1, collected.2.reverse.foldl report state) := by
  fun_induction Scanner.run source (fun (errors : List Diagnostic) d => d :: errors) errors s with
  | case1 errors s h => rw [Scanner.run, if_pos h]
  | case2 errors s h read ih =>
    have htell : Scanner.tell report (errors.reverse.foldl report state) read.1 =
        (Scanner.tell (fun errors d => d :: errors) errors read.1).reverse.foldl report state := by
      cases read.1 <;> simp [Scanner.tell]
    rw [Scanner.run, if_neg h, ← ih, ← htell]

theorem scanReporting_eq {σ : Type} (report : σ → Diagnostic → σ) (state : σ) (source : String) :
    scanReporting report state source =
      ((scan source).tokens, (scan source).errors.foldl report state) := by
  have h := run_eq_collect source report state .new []
  simp only [List.reverse_nil, List.foldl_nil] at h
  simp [scanReporting, scan, h]

end LoxLexer
