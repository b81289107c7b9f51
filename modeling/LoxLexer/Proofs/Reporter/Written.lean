import LoxLexer.Reporter

/-!
# What a reporter writes

Diagnostics that are reported one after the other are written one line each, in order, or not at all
while the sink does not work; that there were any is remembered in both cases. So a scan adds its
report to what the sink holds, and leaves the flag alone only if it finds nothing wrong.

## Results

* `Scan.report`: the lines that tell of a scan's diagnostics.
* `foldl_reportDiagnostic`: many diagnostics reported.
* `Reporter.scan_eq`: a scan that reports.
-/

namespace LoxLexer

/-- The report of a scan: one line for every diagnostic, in order. -/
def Scan.report (s : Scan) : String :=
  String.join (s.errors.map fun d => s!"[line {d.line}] Error: {d.message}\n")

theorem write_empty (s : Sink) : s.write "" = s := by
  unfold Sink.write
  split
  · rw [String.append_empty]
  · rfl

theorem write_append (s : Sink) (a b : String) : s.write (a ++ b) = (s.write a).write b := by
  unfold Sink.write
  cases hworking : s.working with
  | true => simp [String.append_assoc]
  | false => simp [hworking]

/-- **Diagnostics are written in order**, all of them or none, and remembered. -/
theorem foldl_reportDiagnostic (r : Reporter) (found : List Diagnostic) :
    found.foldl Reporter.reportDiagnostic r =
      ⟨r.sink.write (String.join (found.map Diagnostic.text)), r.hadError || !found.isEmpty⟩ := by
  induction found generalizing r with
  | nil =>
    rw [List.foldl_nil, List.map_nil, String.join_nil, write_empty]
    simp
  | cons d found ih =>
    have hstep : r.reportDiagnostic d = ⟨r.sink.write d.text, true⟩ := rfl
    rw [List.foldl_cons, ih, hstep, List.map_cons, String.join_cons, write_append]
    simp

/-- **A scan that reports** finds the tokens of any scan, adds its report to the sink, and is
remembered if it found anything wrong. -/
theorem Reporter.scan_eq (r : Reporter) (source : String) :
    r.scan source =
      ((LoxLexer.scan source).tokens,
        ⟨r.sink.write (LoxLexer.scan source).report,
          r.hadError || !(LoxLexer.scan source).errors.isEmpty⟩) := by
  unfold Reporter.scan
  rw [scanReporting_eq, foldl_reportDiagnostic]
  rfl

end LoxLexer
