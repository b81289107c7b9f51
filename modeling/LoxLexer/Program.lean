import LoxLexer.File.Access
import LoxLexer.Prompt
import LoxLexer.Reporter

/-!
# The scanning program

With the path of a script the program lists the script's tokens; with no argument it prompts for
entries and lists the tokens of each. Tokens go to standard output, one a line, and diagnostics to
standard error. A script with a diagnostic ends the program with status 65; at the prompt bad
entries do not matter to the status. A script that cannot be read or decoded, and a line at the
prompt that cannot be decoded, are fatal.

* `runScript` is `run_file`. Whether the path leads anywhere and what the file holds are one
  question to the file system here, `Access`.
* `answerEntries` is the loop of `run_prompt`, with one reporter through all entries, and each round
  of it is `run`. `Draft.reply` is the same loop seen from the lines, which a command line needs to
  answer an entry before the next line is typed; `Proofs/Program/Conversation` proves the two equal.
* `runProgram` and `launch` are `main`: `launch` starts from the bytes the operating system hands
  over, and `runProgram` from the texts they are once all of them decode.

Results:
* `runScript`, `runPrompt` — the two uses.
* `runProgram` — which of them the arguments ask for; two arguments or more get a usage line and
  status 64.
* `launch` — the same for arguments that may be no texts.
* `Draft.reply`, `converse` — the prompt, line by line.

Out of scope: an output stream that does not take what is written to it, a standard input that fails
for other reasons than decoding, and how the messages of a failure and of a panic are dressed up.
-/

namespace LoxLexer

/-- Why the program gives up. -/
inductive Failure where
  | noSuchFile (path : String)
  | system (e : SystemError)
  | decoding (e : DecodeError)
deriving DecidableEq

/-- The message the program gives up with. -/
def Failure.message : Failure → String
  | noSuchFile path => s!"file does not seem to exist {path}"
  | system e => e.message
  | decoding e => e.message

/-- How the program ends. -/
inductive Ending where
  | exit (status : Nat)
  | fatal (why : Failure)
deriving DecidableEq

/-- The status the program ends with. -/
def Ending.status : Ending → Nat
  | exit status => status
  | fatal _ => 1

/-- What the program wrote and how it ended. The message of a failure is not in the text. -/
structure Outcome where
  stdout : String
  stderr : String
  ending : Ending
deriving DecidableEq

/-- A listing: every token on a line of its own. -/
def listing (tokens : List Token) : String := String.join (tokens.map fun t => t.text ++ "\n")

/-- What invites an entry. -/
def invitation : String := "> "

/-- What is written when there are too many arguments. -/
def usage : String := "Usage: lox-scan [script]\n"

/-- The text of a script, if it can be had. -/
def readScript (path : String) : Access → Except Failure String
  | .contents bytes => (decode bytes).mapError .decoding
  | .missing => .error (.noSuchFile path)
  | .failed e => .error (.system e)

/-- Lists a script. Nothing of a script that cannot be read as a whole is scanned. -/
def runScript (path : String) (file : Access) : Outcome :=
  match readScript path file with
  | .error why => ⟨"", "", .fatal why⟩
  | .ok source =>
    let (tokens, reporter) := Reporter.new.scan source
    ⟨listing tokens, reporter.sink.written, .exit (if reporter.hadError then 65 else 0)⟩

/-- Answers entries in order, up to the first that cannot be decoded: the listing of each and a new
invitation. The reporter is reset after every entry, so that no entry spoils the next. -/
def answerEntries (stdout : String) (reporter : Reporter) : List Line → Outcome
  | [] => ⟨stdout, reporter.sink.written, .exit 0⟩
  | .error e :: _ => ⟨stdout, reporter.sink.written, .fatal (.decoding e)⟩
  | .ok entry :: rest =>
    let (tokens, reporter) := reporter.scan entry
    answerEntries (stdout ++ listing tokens ++ invitation) reporter.reset rest

/-- Prompts for entries until the input ends. -/
def runPrompt (stdin : ByteArray) : Outcome :=
  answerEntries invitation .new (entries (decodeLines stdin))

/-- Runs the program with its arguments, a way to ask for files, and its standard input. -/
def runProgram (args : List String) (access : String → Access) (stdin : ByteArray) : Outcome :=
  match args with
  | [] => runPrompt stdin
  | [path] => runScript path (access path)
  | _ => ⟨usage, "", .exit 64⟩

/-! ## Arguments that are no texts -/

/-- What comes of launching the program. -/
inductive Launch where
  | ran (outcome : Outcome)
  /-- An argument is no text. Nothing is written but the message of the panic, to standard error. -/
  | panicked
deriving DecidableEq

/-- What a launched program wrote to standard output. -/
def Launch.stdout : Launch → String
  | ran outcome => outcome.stdout
  | panicked => ""

/-- The status a launched program ends with. -/
def Launch.status : Launch → Nat
  | ran outcome => outcome.ending.status
  | panicked => 101

/-- Launches the program with the bytes of its own name and of its arguments. Before anything else
all of them are decoded, the name too, and one that does not decode is the end of the program. -/
def launch (argv : List ByteArray) (access : String → Access) (stdin : ByteArray) : Launch :=
  match argv.mapM String.fromUTF8? with
  | some texts => .ran (runProgram texts.tail access stdin)
  | none => .panicked

/-! ## The prompt, line by line -/

/-- What the prompt says to a line: the output, and the draft it goes on with or how it ends. -/
structure Reply where
  stdout : String
  stderr : String
  next : Except Ending Draft

namespace Draft

/-- What the prompt says when the input ends. An entry that was begun is answered, finished or
not. -/
def close (d : Draft) : Outcome :=
  answerEntries "" .new (if d.text.isEmpty then [] else [.ok d.text])

/-- What the prompt says to the next line. Nothing is said before the entry is finished. -/
def reply (d : Draft) : Line → Reply
  | .error e => ⟨"", "", .error (.fatal (.decoding e))⟩
  | .ok line =>
    match d.push line with
    | .reading d => ⟨"", "", .ok d⟩
    | .finished entry =>
      let answer := answerEntries "" .new [.ok entry]
      ⟨answer.stdout, answer.stderr, .ok .empty⟩

end Draft

/-- Replies to lines one after the other, up to the first that cannot be decoded. -/
def converse (stdout stderr : String) (d : Draft) : List Line → Outcome
  | [] => ⟨stdout ++ d.close.stdout, stderr ++ d.close.stderr, d.close.ending⟩
  | line :: rest =>
    let reply := d.reply line
    match reply.next with
    | .ok d => converse (stdout ++ reply.stdout) (stderr ++ reply.stderr) d rest
    | .error ending => ⟨stdout ++ reply.stdout, stderr ++ reply.stderr, ending⟩

end LoxLexer
