import LoxLexer.Program

/-!
# Command line

The outer layer of the program: it asks the operating system for files and lines and writes what the
library answers. At the prompt every entry is answered as soon as it is finished: `talk` does what
`Draft.reply` and `Draft.close` say, a line at a time, as `converse` does with lines that are all
there. The arguments are texts already when they come here, so nothing here panics as `launch` does.
-/

namespace LoxLexer.CommandLine

/-- An error number as the operating system counts them; some calls hand it over negated. -/
def errorNumber (code : UInt32) : Nat :=
  if code.toNat < 0x80000000 then code.toNat else 0x100000000 - code.toNat

/-- The operating system's description and number of an error. -/
def systemError : IO.Error → SystemError
  | .alreadyExists _ code details | .otherError code details | .resourceBusy code details
  | .resourceVanished code details | .unsupportedOperation code details
  | .hardwareFault code details | .unsatisfiedConstraints code details
  | .illegalOperation code details | .protocolError code details | .timeExpired code details
  | .interrupted _ code details | .noFileOrDirectory _ code details
  | .invalidArgument _ code details | .permissionDenied _ code details
  | .resourceExhausted _ code details | .inappropriateType _ code details
  | .noSuchThing _ code details => .ofCode (errorNumber code) details
  | .unexpectedEof => ⟨"Unexpected end of file", 0⟩
  | .userError why => ⟨why, 0⟩

/-- Asks for a file. -/
def access (path : String) : IO Access := do
  try
    return .contents (← IO.FS.readBinFile path)
  catch
    | .noFileOrDirectory _ _ _ => return .missing
    | e => return .failed (systemError e)

/-- Writes what there is to write, the diagnostics first. -/
def write (stdout stderr : String) : IO Unit := do
  IO.eprint stderr
  IO.print stdout
  (← IO.getStdout).flush

/-- Ends the program, with a message if it gives up. -/
def finish : Ending → IO UInt32
  | .exit status => return status.toUInt32
  | .fatal why => do
    IO.eprintln s!"Error: {why.message}"
    return 1

/-- Writes what came of a run and ends the program. -/
def report (o : Outcome) : IO UInt32 := do
  write o.stdout o.stderr
  finish o.ending

/-- The bytes up to the next line feed, or to the end of the input. -/
partial def readBytes (input : IO.FS.Stream) (read : ByteArray) : IO ByteArray := do
  let next ← input.read 1
  let read := read ++ next
  if next.isEmpty || next.data.contains 0x0A then return read else readBytes input read

/-- Replies to lines as they are typed, until the input ends or a line cannot be decoded. -/
partial def talk (input : IO.FS.Stream) (draft : Draft) : IO UInt32 := do
  match decodeLines (← readBytes input .empty) with
  | [] => report draft.close
  | line :: _ =>
    let reply := draft.reply line
    write reply.stdout reply.stderr
    match reply.next with
    | .ok draft => talk input draft
    | .error ending => finish ending

end LoxLexer.CommandLine

open LoxLexer LoxLexer.CommandLine in
/-- Lists the tokens of a script, or of entries typed at a prompt. -/
def main (args : List String) : IO UInt32 := do
  match args with
  | [] =>
    write invitation ""
    talk (← IO.getStdin) .empty
  | [path] => report (runScript path (← access path))
  | _ => report (runProgram args (fun _ => .missing) .empty)
