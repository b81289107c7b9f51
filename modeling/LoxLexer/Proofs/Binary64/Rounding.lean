import Mathlib.Algebra.Order.Field.Basic
import Mathlib.Algebra.Order.Ring.Rat
import Mathlib.Tactic.FieldSimp
import Mathlib.Tactic.Linarith
import Mathlib.Tactic.Positivity
import Mathlib.Tactic.Ring
import LoxLexer.Binary64.Nearest

/-!
# Rounding to nearest

A finite number stands for a rational: a sign, an integer significand of at most 53 binary digits and
a power of two. `nearest` finds the finite number that is nearest to a decimal, among all of them,
negative ones and subnormal ones included; where two are equally near it takes the one with the even
significand. From the middle between the largest finite number and the next power of two on there
is no number to find, and it gives infinity.

Everything is first said of codes, which have no end, with magnitudes counted in units; infinity is
the code whose magnitude would be 2^1024.

## Results

* `Binary64.value`, `Binary64.IsNearest`: what a number stands for, and what rounding asks for.
* `isNearestCode_nearestCode`: no code is nearer, and ties go to even codes.
* `infinityCode_le_iff`: from where on the nearest code is no finite number's.
* `isInfinite_nearest_iff`, `isNearest_nearest`: the same of numbers.
-/

namespace LoxLexer

/-- The quotient that a decimal is. -/
def Decimal.value (d : Decimal) : ℚ := d.digits / 10 ^ d.places

namespace Binary64

/-! ## What a number stands for -/

/-- The significand as an integer, with the leading one that all but the smallest numbers have. -/
def significand (x : Binary64) : Nat :=
  if x.code / 2 ^ 52 = 0 then x.code % 2 ^ 52 else 2 ^ 52 + x.code % 2 ^ 52

/-- The power of two that the significand counts. The smallest numbers share theirs with those of
the first exponent. -/
def exponent (x : Binary64) : ℤ :=
  if x.code / 2 ^ 52 = 0 then -1074 else (x.code / 2 ^ 52 : Nat) - 1075

/-- The rational that a finite number stands for. -/
def value (x : Binary64) : ℚ :=
  (if x.negative then -1 else 1) * (x.significand * 2 ^ x.exponent)

/-- A finite number is nearest to `q` among all finite numbers, and where another one is equally
near its significand is even. -/
structure IsNearest (x : Binary64) (q : ℚ) : Prop where
  finite : x.isFinite = true
  near : ∀ y : Binary64, y.isFinite = true → |x.value - q| ≤ |y.value - q|
  even : ∀ y : Binary64, y.isFinite = true → y.value ≠ x.value →
    |y.value - q| = |x.value - q| → Even x.significand

theorem even_significand_iff (x : Binary64) : Even x.significand ↔ x.code % 2 = 0 := by
  rw [Nat.even_iff]
  unfold significand
  split <;> omega

/-- The magnitude of a number is that of its code, counted in units. -/
theorem significand_mul_exponent (x : Binary64) :
    (x.significand * 2 ^ x.exponent : ℚ) = units x.code / 2 ^ 1074 := by
  have hpow : 2 ^ 52 = 0x10000000000000 := rfl
  have hunit : (2 : ℚ) ^ (-1074 : ℤ) = 1 / 2 ^ 1074 := by
    rw [zpow_neg, one_div]
    rfl
  unfold significand exponent units
  rw [hpow]
  generalize x.code / 0x10000000000000 = e
  generalize x.code % 0x10000000000000 = fraction
  cases e with
  | zero =>
    rw [if_pos rfl, if_pos rfl, hunit, mul_one_div]
    rfl
  | succ e =>
    have hexponent : ((e + 1 : Nat) : ℤ) - 1075 = e + -1074 := by omega
    simp only [Nat.succ_ne_zero, if_false, Nat.add_sub_cancel, Nat.shiftLeft_eq]
    rw [hexponent, zpow_add₀ two_ne_zero, zpow_natCast, hunit, ← mul_assoc, mul_one_div,
      Nat.cast_mul, Nat.cast_pow, Nat.cast_two]

theorem value_eq (x : Binary64) :
    x.value = (if x.negative then -1 else 1) * (units x.code / 2 ^ 1074) := by
  rw [value, significand_mul_exponent]

/-! ## The nearest code -/

/-- A code whose magnitude is nearest to so many units, and even where another one is as near. -/
structure IsNearestCode (code : Nat) (r : ℚ) : Prop where
  near : ∀ other, |(units code : ℚ) - r| ≤ |(units other : ℚ) - r|
  even : ∀ other, other ≠ code → |(units other : ℚ) - r| = |(units code : ℚ) - r| → code % 2 = 0

section
variable {code below other : Nat} {r : ℚ}

theorem abs_units_sub_of_le (hlow : (units below : ℚ) ≤ r) (h : other ≤ below) :
    |(units other : ℚ) - r| = r - units other := by
  have hle : (units other : ℚ) ≤ units below := by exact_mod_cast units_le_units h
  rw [abs_of_nonpos (by linarith), neg_sub]

theorem abs_units_sub_of_lt (hhigh : r < units (below + 1)) (h : below < other) :
    |(units other : ℚ) - r| = units other - r := by
  have hle : (units (below + 1) : ℚ) ≤ units other := by exact_mod_cast units_le_units h
  exact abs_of_nonneg (by linarith)

/-- Every other code is farther from `r` than one of its two neighbours. -/
theorem neighbour_or_lt (hlow : (units below : ℚ) ≤ r) (hhigh : r < units (below + 1))
    (other : Nat) :
    other = below ∨ other = below + 1 ∨ |(units below : ℚ) - r| < |(units other : ℚ) - r| ∨
      |(units (below + 1) : ℚ) - r| < |(units other : ℚ) - r| := by
  rcases Nat.lt_trichotomy other below with hlt | heq | hgt
  · have hunits : (units other : ℚ) < units below := by exact_mod_cast units_lt_units hlt
    rw [abs_units_sub_of_le hlow le_rfl, abs_units_sub_of_le hlow hlt.le]
    exact Or.inr (Or.inr (Or.inl (by linarith)))
  · exact Or.inl heq
  · rcases Nat.eq_or_lt_of_le hgt with heq | hlt
    · exact Or.inr (Or.inl heq.symm)
    · have hunits : (units (below + 1) : ℚ) < units other := by exact_mod_cast units_lt_units hlt
      rw [abs_units_sub_of_lt hhigh below.lt_succ_self, abs_units_sub_of_lt hhigh hgt]
      exact Or.inr (Or.inr (Or.inr (by linarith)))

/-- A code that all others are farther away than has no ties to settle. -/
theorem isNearestCode_of_lt
    (h : ∀ other, other ≠ code → |(units code : ℚ) - r| < |(units other : ℚ) - r|) :
    IsNearestCode code r where
  near other := by
    by_cases heq : other = code
    · rw [heq]
    · exact (h other heq).le
  even other hne htie := absurd htie (h other hne).ne'

/-- Of the two neighbours of `r` the nearer one is nearest, and the even one if they are equally
near. -/
theorem isNearestCode_of_neighbours (hlow : (units below : ℚ) ≤ r)
    (hhigh : r < units (below + 1))
    (h : 2 * r < units below + units (below + 1) ∧ code = below ∨
      units below + units (below + 1) < 2 * r ∧ code = below + 1 ∨
      2 * r = units below + units (below + 1) ∧ code = below + below % 2) :
    IsNearestCode code r := by
  have hothers := neighbour_or_lt hlow hhigh
  have hbelow := abs_units_sub_of_le hlow (le_refl below)
  have habove := abs_units_sub_of_lt hhigh below.lt_succ_self
  rcases h with ⟨hmiddle, rfl⟩ | ⟨hmiddle, rfl⟩ | ⟨hmiddle, rfl⟩
  · refine isNearestCode_of_lt fun other hne => ?_
    rcases hothers other with heq | rfl | hlt | hlt
    · exact absurd heq hne
    · linarith
    · exact hlt
    · linarith
  · refine isNearestCode_of_lt fun other hne => ?_
    rcases hothers other with rfl | heq | hlt | hlt
    · linarith
    · exact absurd heq hne
    · linarith
    · exact hlt
  · have hequal : |(units (below + below % 2) : ℚ) - r| = |(units below : ℚ) - r| := by
      rcases Nat.mod_two_eq_zero_or_one below with heven | hodd
      · rw [heven, Nat.add_zero]
      · rw [hodd]
        linarith
    refine ⟨fun other => ?_, fun _ _ _ => by omega⟩
    rcases hothers other with rfl | rfl | hlt | hlt
    · rw [hequal]
    · linarith
    · linarith
    · linarith

end

/-- **No code is nearer** to a quotient than its nearest code, and ties go to even codes. -/
theorem isNearestCode_nearestCode {num den : Nat} (hden : 0 < den) :
    IsNearestCode (nearestCode num den) (num * unitsPerOne / den) := by
  have hpos : (0 : ℚ) < den := by exact_mod_cast hden
  have hlow := (Nat.le_div_iff_mul_le hden).mp (units_floorCode_le (num * unitsPerOne / den))
  have hhigh := (Nat.div_lt_iff_lt_mul hden).mp
    (lt_units_floorCode_succ (num * unitsPerOne / den))
  generalize hbelow : floorCode (num * unitsPerOne / den) = below at hlow hhigh
  refine @isNearestCode_of_neighbours _ below _ ?_ ?_ ?_
  · rw [le_div_iff₀ hpos]
    exact_mod_cast hlow
  · rw [div_lt_iff₀ hpos]
    exact_mod_cast hhigh
  · have htwice : 2 * (num * unitsPerOne / den : ℚ) = (2 * num * unitsPerOne : Nat) / den := by
      rw [Nat.cast_mul, Nat.cast_mul, Nat.cast_two, mul_assoc, ← mul_div_assoc]
    have hmiddle : (units below + units (below + 1) : ℚ) =
        ((units below + units (below + 1)) * den : Nat) / den := by
      rw [Nat.cast_mul, Nat.cast_add, mul_div_cancel_right₀ _ hpos.ne']
    rw [htwice, hmiddle, div_lt_div_iff_of_pos_right hpos, div_lt_div_iff_of_pos_right hpos,
      div_left_inj' hpos.ne', Nat.cast_lt, Nat.cast_lt, Nat.cast_inj]
    simp only [nearestCode, hbelow]
    split
    · next h => exact Or.inl ⟨h, rfl⟩
    · next hge =>
      split
      · next h => exact Or.inr (Or.inl ⟨h, rfl⟩)
      · next hle =>
        have heq := Nat.le_antisymm (Nat.le_of_not_lt hle) (Nat.le_of_not_lt hge)
        exact Or.inr (Or.inr ⟨heq, rfl⟩)

/-! ## Infinity -/

/-- Twice the middle between the largest finite magnitude and that of infinity's code. -/
theorem units_around_infinity :
    (units (infinityCode - 1) + units infinityCode : ℚ) =
      2 * ((2 ^ 1024 - 2 ^ 970) * 2 ^ 1074) := by
  have h : units (infinityCode - 1) + units infinityCode + 2 * (2 ^ 970 * 2 ^ 1074) =
      2 * (2 ^ 1024 * 2 ^ 1074) := by decide +kernel
  have hcast := congrArg (Nat.cast : ℕ → ℚ) h
  rw [Nat.cast_add, Nat.cast_add, Nat.cast_mul, Nat.cast_mul, Nat.cast_mul, Nat.cast_mul,
    Nat.cast_pow, Nat.cast_pow, Nat.cast_pow, Nat.cast_two] at hcast
  rw [sub_mul, mul_sub, ← hcast, add_sub_cancel_right]

/-- **From the middle on the nearest code is infinity's or above**, the middle included because the
code of the largest finite number is odd. -/
theorem infinityCode_le_iff {code : Nat} {r : ℚ} (h : IsNearestCode code r) :
    infinityCode ≤ code ↔ (2 ^ 1024 - 2 ^ 970) * 2 ^ 1074 ≤ r := by
  have haround := units_around_infinity
  generalize ((2 : ℚ) ^ 1024 - 2 ^ 970) * 2 ^ 1074 = middle at haround ⊢
  have hless : (units (infinityCode - 1) : ℚ) < units infinityCode := by
    exact_mod_cast units_lt_units (by decide : infinityCode - 1 < infinityCode)
  constructor
  · intro hle
    -- the code is no farther away than the largest finite one, which is below it
    have hnear := h.near (infinityCode - 1)
    have habove : (units infinityCode : ℚ) ≤ units code := by exact_mod_cast units_le_units hle
    by_contra hlt
    rw [abs_of_nonneg (by linarith), le_abs] at hnear
    rcases hnear with hnear | hnear
    · linarith
    · linarith
  · intro hle
    by_contra hlt
    have hcode : code ≤ infinityCode - 1 := Nat.le_sub_one_of_lt (Nat.lt_of_not_le hlt)
    have hbelow : (units code : ℚ) ≤ units (infinityCode - 1) := by
      exact_mod_cast units_le_units hcode
    have hdist : |(units code : ℚ) - r| = r - units code := by
      rw [abs_of_nonpos (by linarith), neg_sub]
    have hnear := h.near infinityCode
    rw [hdist, le_abs] at hnear
    rcases hnear with hnear | hnear
    · -- it would have to be a tie, and the largest finite number is odd
      have hlast : infinityCode - 1 ≤ code := by
        by_contra hlower
        have hunits : (units code : ℚ) < units (infinityCode - 1) := by
          exact_mod_cast units_lt_units (Nat.lt_of_not_le hlower)
        linarith
      obtain rfl := Nat.le_antisymm hcode hlast
      have htie : |(units infinityCode : ℚ) - r| = |(units (infinityCode - 1) : ℚ) - r| := by
        rw [hdist, abs_of_nonneg (by linarith)]
        linarith
      exact absurd (h.even infinityCode (by decide) htie) (by decide)
    · linarith

/-! ## Numbers -/

theorem cast_unitsPerOne : (unitsPerOne : ℚ) = 2 ^ 1074 := by
  rw [unitsPerOne, Nat.one_shiftLeft, Nat.cast_pow, Nat.cast_two, unitPlaces]

/-- The nearest code to a decimal, whose value is counted in units like the codes' magnitudes. -/
theorem isNearestCode_decimal (d : Decimal) :
    IsNearestCode (nearestCode d.digits (tenPow d.places)) (d.value * 2 ^ 1074) := by
  have h := @isNearestCode_nearestCode d.digits (tenPow d.places) (tenPow_pos d.places)
  have hpow : (tenPow d.places : ℚ) = 10 ^ d.places := by
    rw [tenPow, Nat.pow_eq, Nat.cast_pow, Nat.cast_ofNat]
  rwa [cast_unitsPerOne, hpow, mul_div_right_comm] at h

/-- A decimal is never rounded to a NaN. -/
theorem isNaN_nearest (d : Decimal) : (nearest d).isNaN = false :=
  decide_eq_false (not_lt.mpr (min_le_right _ _))

/-- **Infinity** is what is found from the middle on between the largest finite number and the next
power of two. -/
theorem isInfinite_nearest_iff (d : Decimal) :
    (nearest d).isInfinite = true ↔ 2 ^ 1024 - 2 ^ 970 ≤ d.value := by
  have hunit : (0 : ℚ) < 2 ^ 1074 := pow_pos two_pos 1074
  rw [← mul_le_mul_iff_left₀ hunit, ← infinityCode_le_iff (isNearestCode_decimal d), isInfinite,
    decide_eq_true_eq]
  exact min_eq_right_iff

theorem abs_value_sub (y : Binary64) (q : ℚ) :
    |y.value - q| =
      |(if y.negative then -(units y.code : ℚ) else units y.code) - q * 2 ^ 1074| / 2 ^ 1074 := by
  have hunit : (0 : ℚ) < 2 ^ 1074 := pow_pos two_pos 1074
  rw [value_eq]
  generalize (2 : ℚ) ^ 1074 = unit at hunit ⊢
  rw [← abs_of_pos hunit, ← abs_div, abs_of_pos hunit, sub_div, mul_div_cancel_right₀ _ hunit.ne']
  split <;> ring_nf

/-- A sign only takes a number away from one that is not negative. -/
theorem abs_units_sub_le (y : Binary64) {r : ℚ} (hr : 0 ≤ r) :
    |(units y.code : ℚ) - r| ≤ |(if y.negative then -(units y.code : ℚ) else units y.code) - r| := by
  split
  · have hunits : (0 : ℚ) ≤ units y.code := Nat.cast_nonneg _
    rw [abs_of_nonpos (by linarith : -(units y.code : ℚ) - r ≤ 0), abs_le]
    constructor <;> linarith
  · exact le_rfl

/-- Only zero is as far from a number that is not negative as its negative. -/
theorem units_eq_zero_of_tie {code : Nat} {r : ℚ} (hr : 0 ≤ r) (h : IsNearestCode code r)
    (htie : |-(units code : ℚ) - r| = |(units code : ℚ) - r|) : (units code : ℚ) = 0 := by
  have hunits : (0 : ℚ) ≤ units code := Nat.cast_nonneg _
  have hzero : (units 0 : ℚ) = 0 := Nat.cast_zero
  rw [abs_of_nonpos (by linarith : -(units code : ℚ) - r ≤ 0)] at htie
  rcases le_total (units code : ℚ) r with hle | hle
  · rw [abs_of_nonpos (by linarith : (units code : ℚ) - r ≤ 0)] at htie
    linarith
  · rw [abs_of_nonneg (by linarith : 0 ≤ (units code : ℚ) - r)] at htie
    have hr0 : r = 0 := by linarith
    have hnear := h.near 0
    rw [hr0, hzero, sub_zero, sub_zero, abs_zero, abs_of_nonneg hunits] at hnear
    exact le_antisymm hnear hunits

/-- **Rounding finds the nearest finite number**, below the middle where infinity begins. -/
theorem isNearest_nearest {d : Decimal} (h : d.value < 2 ^ 1024 - 2 ^ 970) :
    (nearest d).IsNearest d.value := by
  have hcode := isNearestCode_decimal d
  have hvalue : 0 ≤ d.value := div_nonneg (Nat.cast_nonneg _) (pow_nonneg (by norm_num) _)
  have hunit : (0 : ℚ) < 2 ^ 1074 := pow_pos two_pos 1074
  have hr := mul_nonneg hvalue hunit.le
  have hlt : nearestCode d.digits (tenPow d.places) < infinityCode := by
    rw [← not_le, infinityCode_le_iff hcode, mul_le_mul_iff_left₀ hunit, not_le]
    exact h
  have hfound : (nearest d).code = nearestCode d.digits (tenPow d.places) := min_eq_left hlt.le
  have hsign : (nearest d).negative = false := rfl
  have hdist := abs_value_sub (nearest d) d.value
  rw [← hfound] at hcode hlt
  rw [hsign, if_neg Bool.false_ne_true] at hdist
  generalize nearest d = x at *
  refine ⟨decide_eq_true hlt, fun y _ => ?_, fun y _ hne htie => ?_⟩
  · rw [hdist, abs_value_sub, div_le_div_iff_of_pos_right hunit]
    exact (hcode.near y.code).trans (abs_units_sub_le y hr)
  · rw [hdist, abs_value_sub, div_left_inj' hunit.ne'] at htie
    rw [even_significand_iff]
    refine hcode.even y.code (fun heq => hne ?_) (le_antisymm ?_ (hcode.near y.code))
    · -- with the same code the signs differ, and then both numbers are zero
      rw [value_eq, value_eq, hsign]
      cases hneg : y.negative with
      | false => rw [heq]
      | true =>
        rw [hneg, if_pos rfl, heq] at htie
        rw [heq, units_eq_zero_of_tie hr hcode htie, zero_div, mul_zero, mul_zero]
    · rw [← htie]
      exact abs_units_sub_le y hr

end Binary64

end LoxLexer
