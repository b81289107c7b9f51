import LoxLexer.Token.Keyword

/-!
# Kinds of token
-/

namespace LoxLexer

/-- What sort of token a piece of source text is. -/
inductive Kind where
  | leftParen | rightParen | leftBrace | rightBrace
  | comma | dot | minus | plus | semicolon | slash | star
  | bang | bangEqual | equal | equalEqual | greater | greaterEqual | less | lessEqual
  | keyword (k : Keyword)
  | identifier | string | number
  /-- The end of the source, which every listing closes with. -/
  | endOfInput
deriving DecidableEq, Repr

namespace Kind

/-- The name of a kind in a listing: capitals with underscores. -/
def name : Kind → String
  | leftParen => "LEFT_PAREN"
  | rightParen => "RIGHT_PAREN"
  | leftBrace => "LEFT_BRACE"
  | rightBrace => "RIGHT_BRACE"
  | comma => "COMMA"
  | dot => "DOT"
  | minus => "MINUS"
  | plus => "PLUS"
  | semicolon => "SEMICOLON"
  | slash => "SLASH"
  | star => "STAR"
  | bang => "BANG"
  | bangEqual => "BANG_EQUAL"
  | equal => "EQUAL"
  | equalEqual => "EQUAL_EQUAL"
  | greater => "GREATER"
  | greaterEqual => "GREATER_EQUAL"
  | less => "LESS"
  | lessEqual => "LESS_EQUAL"
  | keyword k => k.name
  | identifier => "IDENTIFIER"
  | string => "STRING"
  | number => "NUMBER"
  | endOfInput => "EOF"

instance : ToString Kind := ⟨name⟩

/-- The kind of a word: a reserved word is its own kind, every other word an identifier. -/
def ofWord (word : List Char) : Kind :=
  match Keyword.ofWord? (String.ofList word) with
  | some k => keyword k
  | none => identifier

end Kind

end LoxLexer
