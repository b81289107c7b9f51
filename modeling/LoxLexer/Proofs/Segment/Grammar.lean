import Mathlib.Data.List.TakeWhile
import LoxLexer.Binary64.Reading
import LoxLexer.Proofs.Segment.Opening
import LoxLexer.Segment.Basic

/-!
# The grammar of segments

Which stretches of text are tokens, trivia or malformed, said without reading them. What is
malformed depends on what follows: an unterminated string or comment reaches the end of the text.

A text is divided well when every segment is the longest stretch at its place that belongs to some
class (`IsLongest`, `Division`). `Proofs/Segment/LongestMatch.lean` shows that there is one such
division, and that it is the one that is cut.
-/

namespace LoxLexer

/-- The closer of a block comment. -/
def closer : List Char := ['*', '/']

/-- The tokens of each kind. Letters and digits are those of ASCII, and a reserved word is no
identifier. -/
inductive IsToken : Kind → List Char → Prop
  | mark {c : Char} {kind : Kind} : (c, kind) ∈ Opening.marks → IsToken kind [c]
  | alone {c : Char} {alone followed : Kind} :
      (c, alone, followed) ∈ Opening.equalMarks → IsToken alone [c]
  | followed {c : Char} {alone followed : Kind} :
      (c, alone, followed) ∈ Opening.equalMarks → IsToken followed [c, '=']
  | slash : IsToken .slash ['/']
  | whole {digits : List Char} :
      digits ≠ [] → (∀ a ∈ digits, a.isDigit = true) → IsToken .number digits
  | fraction {whole places : List Char} :
      whole ≠ [] → (∀ a ∈ whole, a.isDigit = true) →
      places ≠ [] → (∀ a ∈ places, a.isDigit = true) → IsToken .number (whole ++ '.' :: places)
  | keyword (k : Keyword) : IsToken (.keyword k) k.word.toList
  | identifier {c : Char} {rest : List Char} :
      isWordStart c = true → (∀ a ∈ rest, isWordPart a = true) →
      (∀ k : Keyword, k.word.toList ≠ c :: rest) → IsToken .identifier (c :: rest)
  | string {body : List Char} :
      (∀ a ∈ body, a ≠ '"') → IsToken .string ('"' :: body ++ ['"'])

/-- Blanks and comments. The closer of a block comment is the first one behind its opener. -/
inductive IsTrivia : List Char → Prop
  | blank {c : Char} : c ∈ [' ', '\r', '\t', '\n'] → IsTrivia [c]
  | lineComment {body : List Char} : (∀ a ∈ body, a ≠ '\n') → IsTrivia ('/' :: '/' :: body)
  | blockComment {body : List Char} :
      ¬ closer <:+: body ++ ['*'] → IsTrivia ('/' :: '*' :: body ++ closer)

/-- What is malformed in front of the rest of a text: one character that no token and no trivia
starts with, or a string or a block comment that the end of the text cuts off. -/
inductive IsMalformed : Fault → (stretch after : List Char) → Prop
  | stray {c : Char} {after : List Char} :
      (∀ kind lexeme, IsToken kind lexeme → lexeme.head? ≠ some c) →
      (∀ lexeme, IsTrivia lexeme → lexeme.head? ≠ some c) →
      IsMalformed (.unexpectedCharacter c) [c] after
  | string {body : List Char} :
      (∀ a ∈ body, a ≠ '"') → IsMalformed .unterminatedString ('"' :: body) []
  | blockComment {body : List Char} :
      ¬ closer <:+: body → IsMalformed .unterminatedBlockComment ('/' :: '*' :: body) []

/-- A segment is what its piece says, in front of the rest of the text. -/
def Segment.Belongs (s : Segment) (after : List Char) : Prop :=
  match s.piece with
  | .token kind => IsToken kind s.text
  | .trivia => IsTrivia s.text
  | .malformed fault => IsMalformed fault s.text after

/-- No stretch of any class that starts at the same place is longer. -/
def Segment.IsLongest (s : Segment) (after : List Char) : Prop :=
  s.Belongs after ∧ ∀ (t : Segment) (rest : List Char), t.text ++ rest = s.text ++ after →
    t.Belongs rest → t.text.length ≤ s.text.length

/-- A text divided into segments, each the longest at its place. -/
inductive Division : List Char → List Segment → Prop
  | nil : Division [] []
  | cons {s : Segment} {after : List Char} {rest : List Segment} :
      s.text ≠ [] → s.IsLongest after → Division after rest →
      Division (s.text ++ after) (s :: rest)

/-! ## Numbers -/

/-- What is read behind a digit is a number with it. -/
theorem isToken_number {c : Char} (hc : c.isDigit = true) (text : List Char) :
    IsToken .number (c :: (restOfNumber text).1) := by
  have hall : ∀ t : List Char, ∀ a ∈ t.takeWhile Char.isDigit, a.isDigit = true := by
    intro t a ha
    exact List.mem_takeWhile_imp ha
  have hcall : ∀ a ∈ c :: text.takeWhile Char.isDigit, a.isDigit = true := by
    intro a ha
    rcases List.mem_cons.mp ha with rfl | ha
    · exact hc
    · exact hall text a ha
  by_cases hpoint : ∃ d after, text.dropWhile Char.isDigit = '.' :: d :: after ∧ d.isDigit = true
  · obtain ⟨d, after, hdrop, hd⟩ := hpoint
    rw [restOfNumber_of_fraction hdrop hd]
    have hplaces : ∀ a ∈ d :: after.takeWhile Char.isDigit, a.isDigit = true := by
      intro a ha
      rcases List.mem_cons.mp ha with rfl | ha
      · exact hd
      · exact hall after a ha
    exact IsToken.fraction (List.cons_ne_nil _ _) hcall (List.cons_ne_nil _ _) hplaces
  · rw [restOfNumber_of_whole hpoint]
    exact .whole (List.cons_ne_nil _ _) hcall

/-- **Every number token stands for a number**: the nearest one to its digits. -/
theorem ofChars?_of_isToken {lexeme : List Char} (h : IsToken .number lexeme) :
    Binary64.ofChars? lexeme = some (.nearest (.ofChars lexeme)) := by
  cases h with
  | mark hm => simp [Opening.marks] at hm
  | alone hm | followed hm => simp [Opening.equalMarks] at hm
  | whole hne hdigits => exact Binary64.ofChars?_whole hne hdigits
  | fraction hne hwhole _ hplaces => exact Binary64.ofChars?_fraction hne hwhole hplaces

end LoxLexer
