import Mathlib.Data.String.Basic
import LoxLexer.Segment.Opening

/-!
# Which characters announce what

`Opening.of` read backwards: every opening with the characters that announce it. No character
announces two openings, so the two readings agree (`announces_of`, `of_eq_of_announces`).
-/

namespace LoxLexer.Opening

/-- The marks that are tokens by themselves. -/
def marks : List (Char × Kind) :=
  [('(', .leftParen), (')', .rightParen), ('{', .leftBrace), ('}', .rightBrace), (',', .comma),
   ('.', .dot), ('-', .minus), ('+', .plus), (';', .semicolon), ('*', .star)]

/-- The marks that an equal sign may follow, with the tokens they are without and with it. -/
def equalMarks : List (Char × Kind × Kind) :=
  [('!', .bang, .bangEqual), ('=', .equal, .equalEqual), ('<', .less, .lessEqual),
   ('>', .greater, .greaterEqual)]

/-- The characters that announce an opening. What is stray is left open: it is what announces
nothing else. -/
def Announces (c : Char) : Opening → Prop
  | mark kind => (c, kind) ∈ marks
  | withEqual alone followed => (c, alone, followed) ∈ equalMarks
  | slash => c = '/'
  | blank => c ∈ [' ', '\r', '\t']
  | lineFeed => c = '\n'
  | quote => c = '"'
  | digit => c.isDigit = true
  | wordStart => isWordStart c = true
  | stray => True

variable {c : Char} {o : Opening}

theorem not_isDigit_of_isWordStart (h : isWordStart c = true) : ¬ c.isDigit = true := by
  intro hd
  have hdigit : c.toNat ≤ '9'.toNat := (Char.isDigit_iff_toNat.mp hd).2
  -- letters and the underscore lie behind the digits
  have hletter : 'A'.toNat ≤ c.toNat := by
    rw [isWordStart, Bool.or_eq_true, beq_iff_eq] at h
    rcases h with halpha | rfl
    · have hcase : (c.isUpper || c.isLower) = true := halpha
      rw [Bool.or_eq_true] at hcase
      rcases hcase with hupper | hlower
      · have hbetween : c.val ≥ 'A'.val ∧ c.val ≤ 'Z'.val := of_decide_eq_true hupper
        exact hbetween.1
      · have hbetween : (decide (c.val ≥ 'a'.val) && decide (c.val ≤ 'z'.val)) = true := hlower
        rw [Bool.and_eq_true, decide_eq_true_eq] at hbetween
        exact Nat.le_trans (by decide) hbetween.1
    · decide
  exact absurd (Nat.le_trans hletter hdigit) (by decide)

theorem announces_of (c : Char) : Announces c (Opening.of c) := by
  unfold Opening.of
  split <;> try simp [Announces, marks, equalMarks]
  split_ifs with hd hw
  · exact hd
  · exact hw
  · trivial

theorem of_eq_of_announces (h : Announces c o) (ho : o ≠ .stray) : Opening.of c = o := by
  cases o with
  | mark kind =>
    simp only [Announces, marks, List.mem_cons, Prod.mk.injEq, List.not_mem_nil, or_false] at h
    rcases h with ⟨rfl, rfl⟩ | ⟨rfl, rfl⟩ | ⟨rfl, rfl⟩ | ⟨rfl, rfl⟩ | ⟨rfl, rfl⟩ | ⟨rfl, rfl⟩ |
      ⟨rfl, rfl⟩ | ⟨rfl, rfl⟩ | ⟨rfl, rfl⟩ | ⟨rfl, rfl⟩ <;> rfl
  | withEqual alone followed =>
    simp only [Announces, equalMarks, List.mem_cons, Prod.mk.injEq, List.not_mem_nil,
      or_false] at h
    rcases h with ⟨rfl, rfl, rfl⟩ | ⟨rfl, rfl, rfl⟩ | ⟨rfl, rfl, rfl⟩ | ⟨rfl, rfl, rfl⟩ <;> rfl
  | slash | lineFeed | quote =>
    obtain rfl := h
    rfl
  | blank =>
    simp only [Announces, List.mem_cons, List.not_mem_nil, or_false] at h
    rcases h with rfl | rfl | rfl <;> rfl
  | digit =>
    have hd : c.isDigit = true := h
    unfold Opening.of
    split <;> first | exact absurd hd (by decide) | rw [if_pos hd]
  | wordStart =>
    have hw : isWordStart c = true := h
    have hd := not_isDigit_of_isWordStart hw
    unfold Opening.of
    split <;> first | exact absurd hw (by decide) | rw [if_neg hd, if_pos hw]
  | stray => exact absurd rfl ho

theorem announces_of_eq (h : Opening.of c = o) : Announces c o := h ▸ announces_of c

theorem of_eq_iff (ho : o ≠ .stray) : Opening.of c = o ↔ Announces c o :=
  ⟨announces_of_eq, fun h => of_eq_of_announces h ho⟩

end LoxLexer.Opening
