import Mathlib.Data.List.Basic
import Mathlib.Data.List.Induction
import LoxLexer.Proofs.Reporter.Written

/-!
# A reporter's whole life

What a reporter remembers and what it has written are two readings of its history, and a failing
sink sets them apart: a diagnostic reported meanwhile is remembered and never written. Both are
told here from the history alone, without running it. The flag looks back to the last reset. The
text looks at every action from where it stands: it is there if, of the times the sink broke or was
mended before, the last one did not break it.

## Results

* `Action.reported`: the lines and messages an action reports.
* `sinkWorksAfter`, `reportedTo`, `ErrorSinceReset`: the sink, its text and the flag, told from the
  history.
* `Reporter.follows_perform`: one step keeps a reporter in line with its history;
  `Reporter.follows_run`: so does a whole life.
* `Reporter.scan_eq_run`: a scan is the reports of its diagnostics.
* `Reporter.run_new`: what holds of a reporter after any history, and that it has no influence on
  what a scan finds.
-/

namespace LoxLexer

/-! ## What a history tells -/

namespace Action

/-- The diagnostics an action reports, in order: for each its line and its message. -/
def reported : Action → List (Nat × String)
  | report line message => [(line, message)]
  | reportDiagnostic d => [(d.line, d.message)]
  | scan source => (LoxLexer.scan source).errors.map fun d => (d.line, d.message)
  | reset | breakSink | mendSink => []

/-- Whether an action is something that happens to the sink. -/
def concernsSink : Action → Bool
  | breakSink | mendSink => true
  | report _ _ | reportDiagnostic _ | scan _ | reset => false

end Action

/-- Whether a sink that worked at first works after a history: it was not broken, or mended later. -/
def sinkWorksAfter (actions : List Action) : Bool :=
  (actions.filter Action.concernsSink).getLast? ≠ some .breakSink

/-- What a history reports while the sink works. -/
def reportedTo (actions : List Action) : List (Nat × String) :=
  (actions.mapIdx fun i a => if sinkWorksAfter (actions.take i) then a.reported else []).flatten

/-- A history has reported something and was not reset since. -/
def ErrorSinceReset (actions : List Action) : Prop :=
  ∃ before a after, actions = before ++ a :: after ∧ a.reported ≠ [] ∧ .reset ∉ after

/-- Diagnostics written out, one line each. -/
def reportText (reported : List (Nat × String)) : String :=
  String.join (reported.map fun (line, message) => s!"[line {line}] Error: {message}\n")

theorem reportText_nil : reportText [] = "" := rfl

theorem reportText_append (first second : List (Nat × String)) :
    reportText (first ++ second) = reportText first ++ reportText second := by
  unfold reportText
  rw [List.map_append, String.join_append]

/-! ## One more action -/

variable {actions : List Action} {a : Action}

theorem sinkWorksAfter_concat :
    sinkWorksAfter (actions ++ [a]) =
      if a.concernsSink then decide (a ≠ .breakSink) else sinkWorksAfter actions := by
  unfold sinkWorksAfter
  cases ha : a.concernsSink with
  | true => simp [List.filter_append, ha]
  | false => simp [List.filter_append, ha]

theorem reportedTo_concat :
    reportedTo (actions ++ [a]) =
      reportedTo actions ++ if sinkWorksAfter actions then a.reported else [] := by
  -- The actions before the last one have the same past, with and without it.
  have hpast : (actions.mapIdx fun i b =>
        if sinkWorksAfter ((actions ++ [a]).take i) then b.reported else []) =
      actions.mapIdx fun i b => if sinkWorksAfter (actions.take i) then b.reported else [] := by
    rw [List.mapIdx_eq_mapIdx_iff]
    intro i hi
    rw [List.take_append_of_le_length (Nat.le_of_lt hi)]
  unfold reportedTo
  rw [List.mapIdx_concat, hpast, List.take_left, List.flatten_append, List.flatten_singleton]

theorem errorSinceReset_concat :
    ErrorSinceReset (actions ++ [a]) ↔
      a.reported ≠ [] ∨ (ErrorSinceReset actions ∧ a ≠ .reset) := by
  constructor
  · rintro ⟨before, b, after, h, hb, hafter⟩
    rcases after.eq_nil_or_concat' with rfl | ⟨after, last, rfl⟩
    · obtain ⟨-, rfl⟩ := List.append_singleton_inj.mp h
      exact .inl hb
    · rw [← List.cons_append, ← List.append_assoc] at h
      obtain ⟨rfl, rfl⟩ := List.append_singleton_inj.mp h
      rw [List.mem_append, List.mem_singleton, not_or] at hafter
      exact .inr ⟨⟨before, b, after, rfl, hb, hafter.1⟩, Ne.symm hafter.2⟩
  · rintro (ha | ⟨⟨before, b, after, rfl, hb, hafter⟩, ha⟩)
    · exact ⟨actions, a, [], rfl, ha, List.not_mem_nil⟩
    · refine ⟨before, b, after ++ [a], by rw [List.append_assoc, List.cons_append], hb, ?_⟩
      rw [List.mem_append, List.mem_singleton, not_or]
      exact ⟨hafter, Ne.symm ha⟩

/-! ## Keeping in line -/

namespace Reporter

/-- A reporter is as its history tells. -/
structure Follows (r : Reporter) (actions : List Action) : Prop where
  working : r.sink.working = sinkWorksAfter actions
  written : r.sink.written = reportText (reportedTo actions)
  hadError : r.hadError = true ↔ ErrorSinceReset actions

theorem write_reportText (s : Sink) (reported : List (Nat × String)) :
    s.write (reportText reported) =
      ⟨s.written ++ reportText (if s.working then reported else []), s.working⟩ := by
  obtain ⟨written, working⟩ := s
  cases working with
  | true => rfl
  | false => simp [Sink.write, reportText_nil]

theorem report_eq (r : Reporter) (line : Nat) (message : String) :
    r.report line message = ⟨r.sink.write (reportText [(line, message)]), true⟩ := by
  have hline : reportText [(line, message)] = Diagnostic.reportLine line message := by
    unfold reportText
    rw [List.map_singleton, String.join_cons, String.join_nil, String.append_empty]
    rfl
  rw [hline]
  rfl

/-- **One step**: the sink takes what the action reports if it works, and only what happens to the
sink changes whether it does. The flag is set by a report, cleared by a reset, and otherwise kept. -/
theorem perform_eq (r : Reporter) (a : Action) :
    r.perform a =
      ⟨⟨r.sink.written ++ reportText (if r.sink.working then a.reported else []),
          if a.concernsSink then decide (a ≠ .breakSink) else r.sink.working⟩,
        decide (a.reported ≠ [] ∨ (r.hadError = true ∧ a ≠ .reset))⟩ := by
  cases a with
  | report line message =>
    rw [perform, report_eq, write_reportText]
    simp [Action.reported, Action.concernsSink]
  | reportDiagnostic d =>
    rw [perform, reportDiagnostic, report_eq, write_reportText]
    simp [Action.reported, Action.concernsSink]
  | scan source =>
    have hreport : (LoxLexer.scan source).report = reportText (Action.scan source).reported := by
      unfold Scan.report reportText Action.reported
      rw [List.map_map]
      rfl
    have hflag : (!(LoxLexer.scan source).errors.isEmpty) =
        decide ((Action.scan source).reported ≠ []) := by
      rw [Bool.eq_iff_iff]
      simp [Action.reported]
    rw [perform, scan_eq, hreport, write_reportText, hflag]
    simp [Action.concernsSink, Bool.or_comm]
  | reset => simp [perform, reset, Action.reported, Action.concernsSink, reportText_nil]
  | breakSink => simp [perform, Action.reported, Action.concernsSink, reportText_nil]
  | mendSink => simp [perform, Action.reported, Action.concernsSink, reportText_nil]

/-- **A step keeps a reporter in line with its history.** -/
theorem follows_perform {r : Reporter} {actions : List Action} (h : r.Follows actions) (a : Action) :
    (r.perform a).Follows (actions ++ [a]) where
  working := by rw [perform_eq, sinkWorksAfter_concat, h.working]
  written := by rw [perform_eq, reportedTo_concat, reportText_append, h.written, h.working]
  hadError := by rw [perform_eq, decide_eq_true_iff, errorSinceReset_concat, h.hadError]

theorem run_append (r : Reporter) (first second : List Action) :
    r.run (first ++ second) = (r.run first).run second := List.foldl_append

theorem run_concat (r : Reporter) (actions : List Action) (a : Action) :
    r.run (actions ++ [a]) = (r.run actions).perform a := by
  rw [run_append]
  rfl

/-- A scan is the reports of its diagnostics. -/
theorem scan_eq_run (r : Reporter) (source : String) :
    r.scan source = ((LoxLexer.scan source).tokens,
      r.run ((LoxLexer.scan source).errors.map .reportDiagnostic)) := by
  rw [scan, scanReporting_eq, run, List.foldl_map]
  rfl

/-- **A whole life keeps a reporter in line with its history.** -/
theorem follows_run (actions : List Action) : (new.run actions).Follows actions := by
  induction actions using List.reverseRecOn with
  | nil =>
    refine ⟨rfl, rfl, ?_⟩
    constructor
    · intro h
      cases h
    · rintro ⟨before, a, after, h, -⟩
      simp at h
  | append_singleton actions a ih =>
    rw [run_concat]
    exact follows_perform ih a

/-- **A reporter after any history.** It had an error just if one was reported since the last reset,
whether or not the sink took it; written are the diagnostics reported while the sink worked, one line
each and in order; a reset leaves the text alone. And whatever its state, a scan that reports to it
finds the tokens that a scan finds that reports to anyone else, and tells it the same diagnostics,
one after the other. -/
theorem run_new (actions : List Action) :
    ((new.run actions).hadError = true ↔ ErrorSinceReset actions) ∧
      (new.run actions).sink.written = reportText (reportedTo actions) ∧
      (new.run (actions ++ [.reset])).sink = (new.run actions).sink ∧
      ∀ (source : String) {σ : Type} (report : σ → Diagnostic → σ) (state : σ),
        ((new.run actions).scan source).1 = (scanReporting report state source).1 ∧
          ((new.run actions).scan source).2 =
            new.run (actions ++ (LoxLexer.scan source).errors.map .reportDiagnostic) ∧
          (scanReporting report state source).2 =
            (LoxLexer.scan source).errors.foldl report state := by
  have h := follows_run actions
  refine ⟨h.hadError, h.written, ?_, fun source σ report state => ?_⟩
  · rw [run_concat]
    rfl
  · rw [scan_eq_run, scanReporting_eq, run_append]
    exact ⟨rfl, rfl, rfl⟩

example :
    new.run [.report 1 "a", .breakSink, .report 2 "b", .reset, .scan "#"] =
      ⟨⟨"[line 1] Error: a\n", false⟩, true⟩ := by
  decide +kernel

end Reporter

end LoxLexer
