/-!
# Diagnostics

A fault is what can be wrong with a stretch of source text; a diagnostic is a fault with the line on
which the stretch starts. Written out, it is one line of a report: `[line 3] Error: …`.
-/

namespace LoxLexer

/-- What can be wrong with a stretch of source text. -/
inductive Fault where
  | unexpectedCharacter (c : Char)
  | unterminatedString
  | unterminatedBlockComment
deriving DecidableEq, Repr

namespace Fault

/-- The wording of a fault. An unexpected character is not named in it. -/
def message : Fault → String
  | unexpectedCharacter _ => "Unexpected character."
  | unterminatedString => "Unterminated string."
  | unterminatedBlockComment => "Unterminated block comment."

/-- Whether more text could mend the fault by closing what was opened. -/
def isUnterminated : Fault → Bool
  | unexpectedCharacter _ => false
  | unterminatedString | unterminatedBlockComment => true

end Fault

/-- A fault and the line of the first character of the faulty stretch, counted from one. -/
structure Diagnostic where
  fault : Fault
  line : Nat
deriving DecidableEq, Repr

namespace Diagnostic

/-- The wording of a diagnostic, without its line. -/
def message (d : Diagnostic) : String := d.fault.message

/-- One line of a report about a source line, with its line feed. -/
def reportLine (line : Nat) (message : String) : String :=
  s!"[line {line}] Error: {message}\n"

/-- The report line of a diagnostic. -/
def text (d : Diagnostic) : String := reportLine d.line d.message

end Diagnostic

end LoxLexer
