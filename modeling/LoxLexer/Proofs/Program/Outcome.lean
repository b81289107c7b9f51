import LoxLexer.Program
import LoxLexer.Proofs.Prompt.Blocks
import LoxLexer.Proofs.Reporter.Written

/-!
# What the program writes

Every use of the program comes down to scans that know nothing of each other. A script is scanned
once and as a whole, or not at all. At the prompt each entry is scanned by itself, in order, up to
the first line that cannot be decoded: the reporter that lives through all of them carries nothing
from one to the next but the text it has written.

## Results

* `transcript`, `reports`: what is written for entries at the prompt.
* `answerEntries_append`: entries are answered one by one, and the rest as if afresh.
* `runProgram_prompt`: the outcome of a whole run at the prompt, for every standard input.
* `runProgram_script`: the outcome of a run with one argument, for everything a path may lead to.
* `launch_toUTF8`, `launch_of_no_text`: a launch is a run if the arguments are texts, and a panic if
  not.
* `launch_script`: what comes of a launch with one argument.
-/

namespace LoxLexer

/-! ## The prompt -/

/-- What the prompt writes to standard output for entries: an invitation, and for each entry its
tokens, one a line, and an invitation to the next. -/
def transcript (texts : List String) : String :=
  "> " ++ String.join (texts.map fun text =>
    String.join ((scan text).tokens.map fun t => t.text ++ "\n") ++ "> ")

/-- What the prompt writes to standard error for entries: the report of each, its lines counted from
the start of the entry. -/
def reports (texts : List String) : String := String.join (texts.map fun text => (scan text).report)

/-- One entry. With a sink that works and nothing held against the reporter the answer is written,
and the reporter is left in the same state. -/
theorem answerEntries_cons_ok (stdout stderr text : String) (rest : List Line) :
    answerEntries stdout ⟨⟨stderr, true⟩, false⟩ (.ok text :: rest) =
      answerEntries (stdout ++ (listing (scan text).tokens ++ invitation))
        ⟨⟨stderr ++ (scan text).report, true⟩, false⟩ rest := by
  rw [answerEntries, Reporter.scan_eq, ← String.append_assoc]
  rfl

/-- **Entries are answered one by one**, and what comes behind them as if afresh. -/
theorem answerEntries_append (stdout stderr : String) (texts : List String) (rest : List Line) :
    answerEntries stdout ⟨⟨stderr, true⟩, false⟩ (texts.map .ok ++ rest) =
      answerEntries
        (stdout ++ String.join (texts.map fun text => listing (scan text).tokens ++ invitation))
        ⟨⟨stderr ++ reports texts, true⟩, false⟩ rest := by
  induction texts generalizing stdout stderr with
  | nil => simp [reports]
  | cons text texts ih =>
    have hreports : reports (text :: texts) = (scan text).report ++ reports texts := by
      unfold reports
      rw [List.map_cons, String.join_cons]
    rw [List.map_cons, List.cons_append, answerEntries_cons_ok, ih, List.map_cons,
      String.join_cons, hreports]
    simp only [String.append_assoc]

theorem runPrompt_of_entries {stdin : ByteArray} {texts : List String} {rest : List Line}
    (h : entries (decodeLines stdin) = texts.map .ok ++ rest) :
    runPrompt stdin = answerEntries (transcript texts) ⟨⟨reports texts, true⟩, false⟩ rest := by
  have hanswers := answerEntries_append invitation "" texts rest
  rw [String.empty_append] at hanswers
  unfold runPrompt
  rw [h]
  exact hanswers

/-- **A run at the prompt.** Let the texts be the entries in front of the first line that cannot be
decoded, all entries if there is no such line. The run writes their transcript and their reports,
nothing else, and ends with status zero, whatever it reported. A line that cannot be decoded is
fatal after that, with status one: the texts are then the entries of some first lines, and neither
the lines behind them, which make no entry, nor the line that cannot be decoded, nor anything after
it is scanned to be listed or printed. `Draft.push` does scan the lines of an unfinished entry, to
see whether it is open; no token and no diagnostic of that scan is listed or reported. -/
theorem runProgram_prompt (access : String → Access) (stdin : ByteArray) :
    ∃ texts : List String,
      (entries (decodeLines stdin) = texts.map .ok ∧
        runProgram [] access stdin = ⟨transcript texts, reports texts, .exit 0⟩ ∧
        (runProgram [] access stdin).ending.status = 0) ∨
      ∃ e later, entries (decodeLines stdin) = texts.map .ok ++ .error e :: later ∧
        runProgram [] access stdin = ⟨transcript texts, reports texts, .fatal (.decoding e)⟩ ∧
        (runProgram [] access stdin).ending.status = 1 ∧
        ∃ (read lost : List String) (after : List Line),
          decodeLines stdin = read.map .ok ++ lost.map .ok ++ .error e :: after ∧
          entries (read.map (Except.ok : String → Line)) = texts.map .ok := by
  obtain ⟨texts, hall | ⟨e, later, hfront⟩⟩ := exists_texts_front (entries (decodeLines stdin))
  · have hfront : entries (decodeLines stdin) = texts.map .ok ++ [] := by
      rw [hall, List.append_nil]
    have hrun : runProgram [] access stdin = ⟨transcript texts, reports texts, .exit 0⟩ :=
      runPrompt_of_entries hfront
    exact ⟨texts, Or.inl ⟨hall, hrun, by rw [hrun]; rfl⟩⟩
  · have hrun : runProgram [] access stdin =
        ⟨transcript texts, reports texts, .fatal (.decoding e)⟩ := runPrompt_of_entries hfront
    refine ⟨texts, Or.inr ⟨e, later, hfront, hrun, by rw [hrun]; rfl, ?_⟩⟩
    exact exists_lines_of_failure hfront

/-- An entry is answered, one that was begun is not, and nothing behind the bad line is read. -/
example : runProgram [] (fun _ => .missing) ("a@;\n(\n".toUTF8.push 0xFF ++ "\nb;\n".toUTF8) =
    ⟨"> IDENTIFIER a null\nSEMICOLON ; null\nEOF  null\n> ",
      "[line 1] Error: Unexpected character.\n", .fatal (.decoding .invalidUtf8)⟩ := by
  decide +kernel

/-! ## A script -/

/-- **A script is scanned as a whole**, and its status tells whether anything was reported. -/
theorem runScript_of_text (path text : String) :
    runScript path (.contents text.toUTF8) =
      ⟨listing (scan text).tokens, (scan text).report,
        .exit (if (scan text).errors = [] then 0 else 65)⟩ := by
  have hread : readScript path (.contents text.toUTF8) = .ok text := by
    unfold readScript
    dsimp only
    rw [decode_toUTF8]
    rfl
  unfold runScript
  rw [hread]
  dsimp only
  rw [Reporter.scan_eq]
  have hwritten : (Sink.empty.write (scan text).report).written = (scan text).report :=
    String.empty_append
  cases herrors : (scan text).errors <;> simp [Reporter.new, hwritten]

/-- Why the program gives up on what is no text. -/
def scriptFailure (path : String) : Access → Failure
  | .contents _ => .decoding .invalidUtf8
  | .missing => .noSuchFile path
  | .failed e => .system e

/-- **Nothing else is scanned at all**, neither the text in front of an undecodable byte nor what is
not there. -/
theorem runScript_of_no_text {file : Access}
    (h : ∀ text : String, file ≠ .contents text.toUTF8) (path : String) :
    runScript path file = ⟨"", "", .fatal (scriptFailure path file)⟩ := by
  have hread : readScript path file = .error (scriptFailure path file) := by
    cases file with
    | contents bytes =>
      have hnone : ∀ text : String, text.toUTF8 ≠ bytes := by
        rintro text rfl
        exact h text rfl
      unfold readScript scriptFailure
      dsimp only
      rw [decode_of_no_text hnone]
      rfl
    | missing => rfl
    | failed e => rfl
  unfold runScript
  rw [hread]

/-- **A run with one argument.** If the path leads to a file that is a text, the run writes the
tokens of the text, one a line, to standard output and its report to standard error, and ends with
status zero if there was nothing to report and 65 otherwise. In all other cases (bytes that are no
text, no file, a file that cannot be read) it writes nothing, however much of the file is text, and
gives up with status one and a message of its own. -/
theorem runProgram_script (path : String) (access : String → Access) (stdin : ByteArray) :
    (∀ text : String, access path = .contents text.toUTF8 →
      runProgram [path] access stdin =
          ⟨String.join ((scan text).tokens.map fun t => t.text ++ "\n"), (scan text).report,
            .exit (if (scan text).errors = [] then 0 else 65)⟩ ∧
        (runProgram [path] access stdin).ending.status =
          if (scan text).errors = [] then 0 else 65) ∧
    ((∀ text : String, access path ≠ .contents text.toUTF8) →
      runProgram [path] access stdin = ⟨"", "", .fatal (scriptFailure path (access path))⟩ ∧
        (runProgram [path] access stdin).ending.status = 1) := by
  have hscript : runProgram [path] access stdin = runScript path (access path) := rfl
  rw [hscript]
  constructor
  · intro text haccess
    have hrun := runScript_of_text path text
    rw [haccess]
    exact ⟨hrun, by rw [hrun]; rfl⟩
  · intro hnone
    have hrun := runScript_of_no_text hnone path
    exact ⟨hrun, by rw [hrun]; rfl⟩

/-- A file that is text but for its last byte. -/
example : runProgram ["s"] (fun _ => .contents ("a;\n".toUTF8.push 0xFF)) .empty =
    ⟨"", "", .fatal (.decoding .invalidUtf8)⟩ := by decide +kernel

/-! ## A launch -/

/-- With arguments that are texts a launch is a run. -/
theorem launch_toUTF8 (texts : List String) (access : String → Access) (stdin : ByteArray) :
    launch (texts.map String.toUTF8) access stdin =
      .ran (runProgram texts.tail access stdin) := by
  have hdecoded : (texts.map String.toUTF8).mapM String.fromUTF8? = some texts := by
    induction texts with
    | nil => rfl
    | cons text texts ih => rw [List.map_cons, List.mapM_cons, fromUTF8?_toUTF8, ih]; rfl
  unfold launch
  rw [hdecoded]

/-- With an argument that is no text a launch is a panic, whatever the others are. -/
theorem launch_of_no_text {argv : List ByteArray} {argument : ByteArray} (hmem : argument ∈ argv)
    (h : ∀ text : String, text.toUTF8 ≠ argument) (access : String → Access) (stdin : ByteArray) :
    launch argv access stdin = .panicked := by
  have hdecoded : argv.mapM String.fromUTF8? = none := by
    induction argv with
    | nil => cases hmem
    | cons first argv ih =>
      rw [List.mapM_cons]
      rcases List.mem_cons.mp hmem with rfl | hmem
      · rw [fromUTF8?_of_no_text h]
        rfl
      · rw [ih hmem]
        cases String.fromUTF8? first <;> rfl
  unfold launch
  rw [hdecoded]

/-- A file whose name is no text is not listed, wherever it is. -/
example : launch ["lox-scan".toUTF8, ⟨#[0xFF]⟩] (fun _ => .contents "a".toUTF8) .empty =
    .panicked := by decide +kernel

end LoxLexer
