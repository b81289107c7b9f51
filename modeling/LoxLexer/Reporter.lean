import LoxLexer.Scan

/-!
# Reporting diagnostics

A reporter writes one line per diagnostic to a sink and remembers whether it was given any. The sink
may stop taking text and start again; what is reported meanwhile is not written, then or later, and
still counts as an error had. Clearing that memory leaves the written text alone.

* `Reporter` is `ConsoleReporter` with its `report`, `report_scanning_error` (`reportDiagnostic`),
  `reset` and `had_error`; `sink.written` is what `into_inner` gives back. `Reporter.scan` is
  `tokenize` with the reporter told of every error.
* An `Action` is one of these calls, or the sink failing or mending.

Results:
* `Reporter.report`, `Reporter.reset` — one diagnostic, and the memory cleared.
* `Reporter.scan` — a scan that reports what it finds wrong.
* `Reporter.perform` — one step of a reporter's life; `Reporter.run` — many.

Out of scope: a sink that takes a part of a line and then fails. A `Sink` takes a write or does not.
-/

namespace LoxLexer

/-- A place that text is written to. -/
structure Sink where
  written : String
  working : Bool
deriving DecidableEq, Repr

namespace Sink

/-- A sink at work with nothing written yet. -/
def empty : Sink := ⟨"", true⟩

/-- Adds text; a sink that is not working takes none of it. -/
def write (s : Sink) (text : String) : Sink :=
  if s.working then { s with written := s.written ++ text } else s

end Sink

/-- A sink for diagnostics, and whether there were any since the last reset. -/
structure Reporter where
  sink : Sink
  hadError : Bool
deriving DecidableEq, Repr

/-- What can be asked of a reporter, or happen to its sink. -/
inductive Action where
  | report (line : Nat) (message : String)
  | reportDiagnostic (d : Diagnostic)
  /-- Scan a source text and report its diagnostics as they are found. -/
  | scan (source : String)
  | reset
  | breakSink
  | mendSink
deriving DecidableEq, Repr

namespace Reporter

/-- A reporter that has reported nothing. -/
def new : Reporter := ⟨.empty, false⟩

/-- Writes one report line. A sink that fails is ignored: there is nowhere left to report it. -/
def report (r : Reporter) (line : Nat) (message : String) : Reporter :=
  ⟨r.sink.write (Diagnostic.reportLine line message), true⟩

/-- Writes the report line of a diagnostic. -/
def reportDiagnostic (r : Reporter) (d : Diagnostic) : Reporter := r.report d.line d.message

/-- Scans a source text and reports its diagnostics as they are found. -/
def scan (r : Reporter) (source : String) : List Token × Reporter :=
  scanReporting reportDiagnostic r source

/-- Forgets that anything was reported. -/
def reset (r : Reporter) : Reporter := { r with hadError := false }

/-- One step. -/
def perform (r : Reporter) : Action → Reporter
  | .report line message => r.report line message
  | .reportDiagnostic d => r.reportDiagnostic d
  | .scan source => (r.scan source).2
  | .reset => r.reset
  | .breakSink => { r with sink := { r.sink with working := false } }
  | .mendSink => { r with sink := { r.sink with working := true } }

/-- Many steps, one after the other. -/
def run (r : Reporter) (actions : List Action) : Reporter := actions.foldl perform r

end Reporter

end LoxLexer
