import Mathlib.Algebra.Group.Int.Defs
import LoxLexer.Prompt
import LoxLexer.Proofs.Segment.LongestMatch

/-!
# Counting brackets

The brackets of a scan are counted up and down in 32 bits. In a text of fewer than `2 ^ 31` brackets
of either sort the counter never wraps, so that it ends at zero exactly if there are as many of one
sort as of the other. A bracket token takes up a bracket of the text, so a short text has few.

## Results

* `toInt_foldl_count`: while the counts stay small, the counter is the difference of the counts.
* `count_le_count_text`: there are at most as many tokens of a mark as there are marks in the text.
* `isBalanced_iff`: what a short text is balanced for.
-/

namespace LoxLexer

/-- How many tokens of a scan are of one kind. -/
def Scan.count (s : Scan) (kind : Kind) : Nat := s.tokens.countP fun t => t.kind = kind

/-! ## The counter -/

/-- **The counter does not wrap** if it could take all openers first, and all closers first. -/
theorem toInt_foldl_count {opener closer : Kind} (hne : opener ≠ closer) (tokens : List Token)
    (depth : Int32)
    (hup : depth.toInt + tokens.countP (fun t => t.kind = opener) < 2 ^ 31)
    (hdown : -2 ^ 31 ≤ depth.toInt - tokens.countP (fun t => t.kind = closer)) :
    (tokens.foldl
      (fun depth t =>
        if t.kind = opener then depth + 1 else if t.kind = closer then depth - 1 else depth)
      depth).toInt =
      depth.toInt + tokens.countP (fun t => t.kind = opener) -
        tokens.countP (fun t => t.kind = closer) := by
  induction tokens generalizing depth with
  | nil => simp
  | cons t tokens ih =>
    rw [List.foldl_cons]
    by_cases hopen : t.kind = opener
    · have hclose : t.kind ≠ closer := fun h => hne (hopen.symm.trans h)
      simp only [List.countP_cons, hopen, hne, decide_true, decide_false, if_true,
        Bool.false_eq_true, if_false, Nat.add_zero] at hup hdown ⊢
      have hstep : (depth + 1).toInt = depth.toInt + 1 := by
        have hlow := Int32.le_toInt depth
        rw [Int32.toInt_add, Int32.toInt_one]
        exact Int.bmod_eq_of_le (by omega) (by omega)
      rw [ih _ (by omega) (by omega), hstep]
      omega
    · by_cases hclose : t.kind = closer
      · simp only [List.countP_cons, hclose, hne.symm, decide_true, decide_false, if_true,
          Bool.false_eq_true, if_false, Nat.add_zero] at hup hdown ⊢
        have hstep : (depth - 1).toInt = depth.toInt - 1 := by
          have hhigh := Int32.toInt_lt depth
          rw [Int32.toInt_sub, Int32.toInt_one]
          exact Int.bmod_eq_of_le (by omega) (by omega)
        rw [ih _ (by omega) (by omega), hstep]
        omega
      · simp only [List.countP_cons, hopen, hclose, decide_false, Bool.false_eq_true, if_false,
          Nat.add_zero] at hup hdown ⊢
        exact ih depth hup hdown

theorem excess_eq_zero_iff {s : Scan} {opener closer : Kind} (hne : opener ≠ closer)
    (hopener : s.count opener < 2 ^ 31) (hcloser : s.count closer < 2 ^ 31) :
    s.excess opener closer = 0 ↔ s.count opener = s.count closer := by
  unfold Scan.count at *
  have hcount := toInt_foldl_count hne s.tokens 0
    (by rw [Int32.toInt_zero]; omega) (by rw [Int32.toInt_zero]; omega)
  rw [Int32.toInt_zero] at hcount
  unfold Scan.excess
  rw [← Int32.toInt_inj, hcount, Int32.toInt_zero]
  omega

/-! ## Tokens of a mark -/

section
variable {c : Char} {kind : Kind}

/-- No other token is of the kind of a mark. -/
theorem eq_mark_of_isToken (hmark : (c, kind) ∈ Opening.marks) {lexeme : List Char}
    (h : IsToken kind lexeme) : lexeme = [c] := by
  have hunique : ∀ p ∈ Opening.marks, ∀ q ∈ Opening.marks, p.2 = q.2 → p.1 = q.1 := by decide
  have hother : ∀ p ∈ Opening.marks, ∀ q ∈ Opening.equalMarks, p.2 ≠ q.2.1 ∧ p.2 ≠ q.2.2 := by
    decide
  cases h with
  | mark h => exact congrArg (fun a => [a]) (hunique _ h _ hmark rfl)
  | alone h => exact absurd rfl (hother _ hmark _ h).1
  | followed h => exact absurd rfl (hother _ hmark _ h).2
  | slash | whole | fraction | keyword | identifier | string => simp [Opening.marks] at hmark

theorem countP_token?_le (hmark : (c, kind) ∈ Opening.marks) {division : List Segment}
    (h : ∀ s ∈ division, ∃ after, s.Belongs after) :
    (division.filterMap Segment.token?).countP (fun found => found.1 = kind) ≤
      (division.flatMap Segment.text).count c := by
  induction division with
  | nil => simp
  | cons s division ih =>
    obtain ⟨after, hbelongs⟩ := h s List.mem_cons_self
    have hrest := ih fun s hs => h s (List.mem_cons_of_mem _ hs)
    rw [List.flatMap_cons, List.count_append, List.filterMap_cons]
    obtain ⟨piece, lexeme⟩ := s
    cases piece with
    | token found =>
      simp only [Segment.token?, List.countP_cons]
      by_cases hkind : found = kind
      · obtain rfl := hkind
        have htoken : IsToken found lexeme := hbelongs
        simp only [eq_mark_of_isToken hmark htoken, decide_true, if_true, List.count_singleton_self]
        omega
      · simp only [hkind, decide_false, Bool.false_eq_true, if_false]
        omega
    | trivia | malformed =>
      simp only [Segment.token?]
      omega

/-- A token of a mark takes a mark of the text. -/
theorem count_le_count_text (hmark : (c, kind) ∈ Opening.marks) (text : String) :
    (scan text).count kind ≤ text.toList.count c := by
  have hcount : (scan text).count kind =
      ((scan text).tokens.map fun t => (t.kind, t.lexeme)).countP fun found => found.1 = kind := by
    rw [List.countP_map]
    rfl
  have hend : kind ≠ .endOfInput := by
    rintro rfl
    simp [Opening.marks] at hmark
  have hbelongs : ∀ s ∈ segments text.toList, ∃ after, s.Belongs after := by
    intro s hs
    exact belongs_of_mem (division_segments _) hs
  have hle := countP_token?_le hmark hbelongs
  rw [flatMap_text_segments] at hle
  rw [hcount, map_tokens_scan, List.countP_append, List.countP_singleton,
    if_neg (by simpa using hend.symm)]
  exact hle

end

/-! ## Balance -/

/-- **A short text is balanced** if it has as many tokens of each opening bracket as of the closing
one. -/
theorem isBalanced_iff {text : String}
    (hshort : ∀ c ∈ ['{', '}', '(', ')'], text.toList.count c < 2 ^ 31) :
    (scan text).isBalanced = true ↔
      (scan text).count .leftBrace = (scan text).count .rightBrace ∧
        (scan text).count .leftParen = (scan text).count .rightParen := by
  have hbound : ∀ c kind, c ∈ ['{', '}', '(', ')'] → (c, kind) ∈ Opening.marks →
      (scan text).count kind < 2 ^ 31 := by
    intro c kind hc hmark
    exact (count_le_count_text hmark text).trans_lt (hshort c hc)
  unfold Scan.isBalanced
  rw [Bool.and_eq_true, decide_eq_true_eq, decide_eq_true_eq,
    excess_eq_zero_iff (by decide) (hbound '{' _ (by decide) (by decide))
      (hbound '}' _ (by decide) (by decide)),
    excess_eq_zero_iff (by decide) (hbound '(' _ (by decide) (by decide))
      (hbound ')' _ (by decide) (by decide))]

end LoxLexer
