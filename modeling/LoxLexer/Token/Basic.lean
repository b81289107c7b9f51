import LoxLexer.Binary64.Text
import LoxLexer.Token.Kind

/-!
# Tokens

A token is a kind, the stretch of source it was read from, the value of a number or string, and the
line its first character stands on.

`=` on tokens is identity. `==` compares all four parts too, but the values of numbers as numbers:
zero and negative zero are the same, and a token whose number is a NaN is not `==` to itself.
-/

namespace LoxLexer

/-- The value of a number or a string token. -/
inductive Literal where
  | number (value : Binary64)
  | string (value : String)
deriving DecidableEq, BEq

/-- The text of a value: a number as `Binary64.text` writes it, a string as it is. -/
def Literal.text : Literal → String
  | .number value => value.text
  | .string value => value

instance : ToString Literal := ⟨Literal.text⟩

/-- A token of a source text. -/
structure Token where
  kind : Kind
  lexeme : String
  literal : Option Literal
  /-- The line of the first character, counted from one. -/
  line : Nat
deriving DecidableEq, BEq

namespace Token

/-- The token that closes a listing; it covers no text. -/
def endOfInput (line : Nat) : Token := ⟨.endOfInput, "", none, line⟩

/-- The kind, the lexeme and the value of a token, wherever it stands. -/
def content (t : Token) : Kind × String × Option Literal := (t.kind, t.lexeme, t.literal)

/-- A token's line in a listing: kind, lexeme and value with single spaces between, `null` standing
for no value. -/
def text (t : Token) : String :=
  t.kind.name ++ " " ++ t.lexeme ++ " " ++ (t.literal.elim "null" Literal.text)

instance : ToString Token := ⟨text⟩

end Token

end LoxLexer
