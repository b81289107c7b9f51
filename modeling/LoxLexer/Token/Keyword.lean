/-!
# Reserved words

Results:
* `Keyword.ofWord?` — the reserved word with exactly this spelling.
* `Keyword.ofWord?_eq_some_iff` — it finds a word by its spelling and by nothing else.
-/

namespace LoxLexer

/-- A reserved word. -/
inductive Keyword where
  | kwAnd | kwClass | kwElse | kwFalse | kwFor | kwFun | kwIf | kwNil
  | kwOr | kwPrint | kwReturn | kwSuper | kwThis | kwTrue | kwVar | kwWhile
deriving DecidableEq, Repr

namespace Keyword

/-- The reserved words in alphabetical order. -/
def all : List Keyword :=
  [kwAnd, kwClass, kwElse, kwFalse, kwFor, kwFun, kwIf, kwNil,
   kwOr, kwPrint, kwReturn, kwSuper, kwThis, kwTrue, kwVar, kwWhile]

/-- The word as it stands in a source text. -/
def word : Keyword → String
  | kwAnd => "and"
  | kwClass => "class"
  | kwElse => "else"
  | kwFalse => "false"
  | kwFor => "for"
  | kwFun => "fun"
  | kwIf => "if"
  | kwNil => "nil"
  | kwOr => "or"
  | kwPrint => "print"
  | kwReturn => "return"
  | kwSuper => "super"
  | kwThis => "this"
  | kwTrue => "true"
  | kwVar => "var"
  | kwWhile => "while"

/-- The name of the word's token kind in a listing. -/
def name : Keyword → String
  | kwAnd => "AND"
  | kwClass => "CLASS"
  | kwElse => "ELSE"
  | kwFalse => "FALSE"
  | kwFor => "FOR"
  | kwFun => "FUN"
  | kwIf => "IF"
  | kwNil => "NIL"
  | kwOr => "OR"
  | kwPrint => "PRINT"
  | kwReturn => "RETURN"
  | kwSuper => "SUPER"
  | kwThis => "THIS"
  | kwTrue => "TRUE"
  | kwVar => "VAR"
  | kwWhile => "WHILE"

/-- The reserved word with exactly this spelling; letter case counts. -/
def ofWord? (text : String) : Option Keyword :=
  all.find? (·.word = text)

theorem mem_all (k : Keyword) : k ∈ all := by
  cases k <;> decide

theorem word_injective {k l : Keyword} (h : k.word = l.word) : k = l := by
  revert h
  cases k <;> cases l <;> decide

theorem ofWord?_eq_some_iff {text : String} {k : Keyword} :
    ofWord? text = some k ↔ k.word = text := by
  constructor
  · intro h
    simpa using List.find?_some h
  · intro h
    cases hf : ofWord? text with
    | none =>
      have := List.find?_eq_none.1 hf k (mem_all k)
      simp [h] at this
    | some l =>
      have hl : l.word = text := by simpa using List.find?_some hf
      rw [word_injective (hl.trans h.symm)]

theorem ofWord?_word (k : Keyword) : ofWord? k.word = some k :=
  ofWord?_eq_some_iff.2 rfl

end Keyword

end LoxLexer
