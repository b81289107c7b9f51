import LoxLexer.Segment.Basic
import LoxLexer.Token.Basic

/-!
# Segments and their lines

Where the segments of a text start, and what each comes to: a token with its value, a diagnostic, or
nothing.

Results:
* `located` — the segments of a text with their lines.
* `locate_cons` — a segment's line is the number of line feeds before it, plus the first line.
* `map_segment_locate` — numbering the lines changes no segment.
-/

namespace LoxLexer

/-- The line feeds in a text. -/
def lineFeeds (text : List Char) : Nat := text.count '\n'

/-- A segment and the line its first character stands on. -/
structure Located where
  segment : Segment
  line : Nat
deriving DecidableEq

/-- Numbers the segments of a text whose first line is `line`. -/
def locate (line : Nat) (segments : List Segment) : List Located :=
  List.zipWith Located.mk segments
    (segments.scanl (fun line segment => line + lineFeeds segment.text) line)

/-- The value of a token: numbers are rounded to the nearest, strings lose their quotes. -/
def literal? (kind : Kind) (lexeme : List Char) : Option Literal :=
  match kind with
  | .number => some (.number (.nearest (.ofChars lexeme)))
  | .string => some (.string (String.ofList lexeme.tail.dropLast))
  | _ => none

namespace Located

/-- The token a segment is, if it is one. -/
def token? (s : Located) : Option Token :=
  match s.segment.piece with
  | .token kind =>
    some ⟨kind, String.ofList s.segment.text, literal? kind s.segment.text, s.line⟩
  | _ => none

/-- The diagnostic of a malformed segment. -/
def diagnostic? (s : Located) : Option Diagnostic :=
  match s.segment.piece with
  | .malformed fault => some ⟨fault, s.line⟩
  | _ => none

end Located

/-- The segments of a text with their lines, the first line being line one. -/
def located (text : List Char) : List Located := locate 1 (segments text)

/-! ## Lines -/

@[simp] theorem locate_nil (line : Nat) : locate line [] = [] := rfl

theorem locate_cons (line : Nat) (s : Segment) (rest : List Segment) :
    locate line (s :: rest) = ⟨s, line⟩ :: locate (line + lineFeeds s.text) rest := by
  simp [locate, List.scanl_cons]

theorem map_segment_locate (line : Nat) (segments : List Segment) :
    (locate line segments).map Located.segment = segments := by
  induction segments generalizing line with
  | nil => rfl
  | cons s rest ih => rw [locate_cons, List.map_cons, ih]

end LoxLexer
