import LoxLexer.Binary64.Basic
import LoxLexer.Decimal

/-!
# The nearest binary64 number

A decimal is rounded to the nearest binary64 number, a tie going to the even significand. The
comparison is exact: with the value as a quotient of natural numbers, take the greatest code whose
magnitude does not exceed it and ask on which side of the middle to the next code the value lies.
Since codes go on above infinity with the exponents continued, every value that reaches the middle
between the largest finite number and the next power of two becomes infinity.

Results:
* `units_succ` — neighbouring codes are one `gap` apart, so `units` is strictly increasing.
* `units_floorCode_le`, `lt_units_floorCode_succ` — `floorCode` brackets its argument.
-/

namespace LoxLexer.Binary64

/-- The greatest code of at most `u` units: the leading 53 binary digits of `u`, after as many
steps of the exponent as there are digits left over. -/
def floorCode (u : Nat) : Nat :=
  let k := u.log2 - 52
  k * 0x10000000000000 + u >>> k

/-- The code nearest to `num / den`, not capped at infinity. Codes are even together with their
significands. -/
def nearestCode (num den : Nat) : Nat :=
  let twice := 2 * num * unitsPerOne
  let below := floorCode (num * unitsPerOne / den)
  let middle := (units below + units (below + 1)) * den
  if twice < middle then below
  else if middle < twice then below + 1
  else below + below % 2

/-- The number nearest to a decimal. -/
def nearest (d : Decimal) : Binary64 :=
  ofCode false (nearestCode d.digits (tenPow d.places))

/-! ## Spacing of the codes -/

/-- The distance from a code to the next one, in units. -/
def gap (code : Nat) : Nat := 1 <<< (code / 0x10000000000000 - 1)

theorem units_succ (code : Nat) : units (code + 1) = units code + gap code := by
  by_cases hf : code % 0x10000000000000 + 1 < 0x10000000000000
  · have hd : (code + 1) / 0x10000000000000 = code / 0x10000000000000 := by omega
    have hm : (code + 1) % 0x10000000000000 = code % 0x10000000000000 + 1 := by omega
    simp only [units, gap, hd, hm]
    split
    · next h => rw [h]; rfl
    · rw [← Nat.add_assoc, Nat.shiftLeft_eq, Nat.shiftLeft_eq, Nat.shiftLeft_eq, Nat.add_mul _ 1]
  · have hd : (code + 1) / 0x10000000000000 = code / 0x10000000000000 + 1 := by omega
    have hm : (code + 1) % 0x10000000000000 = 0 := by omega
    have hl : code % 0x10000000000000 = 0x10000000000000 - 1 := by omega
    simp only [units, gap, hd, hm, hl]
    rcases Nat.eq_zero_or_pos (code / 0x10000000000000) with h | h
    · simp only [h]; rfl
    · obtain ⟨e, he⟩ : ∃ e, code / 0x10000000000000 = e + 1 :=
        ⟨code / 0x10000000000000 - 1, by omega⟩
      simp only [he, Nat.add_sub_cancel, Nat.succ_ne_zero, if_false, Nat.shiftLeft_eq,
        Nat.pow_succ 2 e]
      omega

theorem gap_pos (code : Nat) : 0 < gap code := by
  rw [gap, Nat.shiftLeft_eq, Nat.one_mul]
  exact Nat.pow_pos (by decide)

theorem units_lt_units {m n : Nat} (h : m < n) : units m < units n := by
  induction h with
  | refl => rw [units_succ]; exact Nat.lt_add_of_pos_right (gap_pos m)
  | step _ ih => rw [units_succ]; exact Nat.lt_of_lt_of_le ih (Nat.le_add_right _ _)

theorem units_le_units {m n : Nat} (h : m ≤ n) : units m ≤ units n := by
  rcases Nat.lt_or_eq_of_le h with h | rfl
  · exact Nat.le_of_lt (units_lt_units h)
  · exact Nat.le_refl _

theorem lt_of_units_lt {m n : Nat} (h : units m < units n) : m < n :=
  Nat.lt_of_not_le fun hle => Nat.not_lt.2 (units_le_units hle) h

/-! ## The code below a number of units -/

/-- Below the second power of two a code is its own number of units. -/
theorem units_of_lt {code : Nat} (h : code < 0x20000000000000) : units code = code := by
  simp only [units]
  split
  · omega
  · have he : code / 0x10000000000000 - 1 = 0 := by omega
    simp only [he, Nat.shiftLeft_zero]
    omega

/-- A significand with its leading one, `k` steps of the exponent up. -/
theorem units_shifted {q : Nat} (k : Nat) (hl : 0x10000000000000 ≤ q) (hu : q < 0x20000000000000) :
    units (k * 0x10000000000000 + q) = q <<< k := by
  have hd : (k * 0x10000000000000 + q) / 0x10000000000000 = k + 1 := by omega
  have hm : (k * 0x10000000000000 + q) % 0x10000000000000 = q - 0x10000000000000 := by omega
  have hq : 0x10000000000000 + (q - 0x10000000000000) = q := by omega
  simp only [units, hd, hm, Nat.succ_ne_zero, if_false, Nat.add_sub_cancel, hq]

theorem gap_shifted {q : Nat} (k : Nat) (hl : 0x10000000000000 ≤ q) (hu : q < 0x20000000000000) :
    gap (k * 0x10000000000000 + q) = 1 <<< k := by
  have hd : (k * 0x10000000000000 + q) / 0x10000000000000 = k + 1 := by omega
  simp only [gap, hd, Nat.add_sub_cancel]

/-- The leading 53 binary digits of a number with at least so many. -/
theorem leading_digits {u : Nat} (h : 52 ≤ u.log2) :
    0x10000000000000 ≤ u >>> (u.log2 - 52) ∧ u >>> (u.log2 - 52) < 0x20000000000000 := by
  have h0 : u ≠ 0 := by rintro rfl; simp at h
  have hpos : 0 < 2 ^ (u.log2 - 52) := Nat.pow_pos (by decide)
  have hpow : 2 ^ u.log2 = 0x10000000000000 * 2 ^ (u.log2 - 52) := by
    rw [← Nat.pow_add 2 52, Nat.add_sub_cancel' h]
  have hl := Nat.log2_self_le h0
  have hu := @Nat.lt_log2_self u
  rw [Nat.pow_succ, hpow] at hu
  rw [hpow] at hl
  rw [Nat.shiftRight_eq_div_pow, Nat.le_div_iff_mul_le hpos, Nat.div_lt_iff_lt_mul hpos]
  omega

theorem floorCode_of_lt {u : Nat} (h : u.log2 < 52) : floorCode u = u ∧ u < 0x10000000000000 := by
  have hu := @Nat.lt_log2_self u
  have hle : 2 ^ (u.log2 + 1) ≤ 2 ^ 52 := Nat.pow_le_pow_right (by decide) h
  have hk : u.log2 - 52 = 0 := by omega
  refine ⟨?_, Nat.lt_of_lt_of_le hu hle⟩
  simp only [floorCode, hk, Nat.zero_mul, Nat.zero_add, Nat.shiftRight_zero]

theorem units_floorCode_le (u : Nat) : units (floorCode u) ≤ u := by
  rcases Nat.lt_or_ge u.log2 52 with h | h
  · obtain ⟨he, hlt⟩ := floorCode_of_lt h
    exact Nat.le_of_eq (by rw [he, units_of_lt (by omega)])
  · obtain ⟨hl, hu⟩ := leading_digits h
    simp only [floorCode, units_shifted _ hl hu]
    rw [Nat.shiftLeft_eq, Nat.shiftRight_eq_div_pow]
    exact Nat.div_mul_le_self u _

theorem lt_units_floorCode_succ (u : Nat) : u < units (floorCode u + 1) := by
  rw [units_succ]
  rcases Nat.lt_or_ge u.log2 52 with h | h
  · obtain ⟨he, hlt⟩ := floorCode_of_lt h
    rw [he, units_of_lt (by omega)]
    exact Nat.lt_add_of_pos_right (gap_pos u)
  · obtain ⟨hl, hu⟩ := leading_digits h
    have hpos : 0 < 2 ^ (u.log2 - 52) := Nat.pow_pos (by decide)
    simp only [floorCode, units_shifted _ hl hu, gap_shifted _ hl hu]
    rw [Nat.shiftLeft_eq, Nat.shiftLeft_eq, Nat.shiftRight_eq_div_pow, Nat.one_mul]
    exact Nat.lt_div_mul_add hpos

end LoxLexer.Binary64
