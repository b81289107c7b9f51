import LoxLexer.Token.Kind

/-!
# What the first character of a segment decides

Every segment of a source text is recognised by its first character, and the character classes are
those of ASCII: a letter or digit of another script opens nothing and is stray. `Opening.of` is
`dispatch`.
-/

namespace LoxLexer

/-- A letter or an underscore, which may start a word. -/
def isWordStart (c : Char) : Bool := c.isAlpha || c == '_'

/-- A letter, a digit or an underscore, which may continue a word. -/
def isWordPart (c : Char) : Bool := isWordStart c || c.isDigit

/-- What a character at the start of a segment announces. -/
inductive Opening where
  /-- A mark that is a token by itself. -/
  | mark (kind : Kind)
  /-- A mark that an equal sign right after it turns into another token. -/
  | withEqual (alone followed : Kind)
  /-- A slash: division, or the start of a comment. -/
  | slash
  /-- A space, a tab or a carriage return. -/
  | blank
  | lineFeed
  | quote
  | digit
  | wordStart
  /-- A character that starts nothing. -/
  | stray
deriving DecidableEq

/-- What a character announces at the start of a segment. -/
def Opening.of (c : Char) : Opening :=
  match c with
  | '(' => mark .leftParen
  | ')' => mark .rightParen
  | '{' => mark .leftBrace
  | '}' => mark .rightBrace
  | ',' => mark .comma
  | '.' => mark .dot
  | '-' => mark .minus
  | '+' => mark .plus
  | ';' => mark .semicolon
  | '*' => mark .star
  | '!' => withEqual .bang .bangEqual
  | '=' => withEqual .equal .equalEqual
  | '<' => withEqual .less .lessEqual
  | '>' => withEqual .greater .greaterEqual
  | '/' => slash
  | ' ' | '\r' | '\t' => blank
  | '\n' => lineFeed
  | '"' => quote
  | _ => if c.isDigit then digit else if isWordStart c then wordStart else stray

end LoxLexer
