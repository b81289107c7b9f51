import LoxLexer.Binary64.Shortest

/-!
# Binary64 numbers as text

A finite number is written positionally, never with an exponent, and always with a point: a whole
number exactly and with the one place `.0`, any other with the fewest places that round back to
it. A minus sign stands before every number whose sign bit is set, zero and infinity included; a
NaN has no sign.

Results:
* `Binary64.text` — the text of a number.
* `Binary64.nearestCode_decimal` — the decimal written for a code rounds back to it.
* `Binary64.places_decimal_ne_zero` — it is written with a point.
-/

namespace LoxLexer.Binary64

/-- The decimal written for the magnitude of a finite code. -/
def decimal (code : Nat) : Decimal :=
  if units code % unitsPerOne = 0 then ⟨10 * (units code / unitsPerOne), 1⟩ else shortest code

/-- The text of a magnitude. -/
def magnitudeChars (x : Binary64) : List Char :=
  if x.isInfinite then "inf".toList else (decimal x.code).toChars

/-- The text of a number. -/
def text (x : Binary64) : String :=
  if x.isNaN then "NaN"
  else String.ofList (if x.negative then '-' :: x.magnitudeChars else x.magnitudeChars)

instance : ToString Binary64 := ⟨text⟩

theorem nearestCode_decimal (code : Nat) :
    nearestCode (decimal code).digits (tenPow (decimal code).places) = code := by
  unfold decimal
  split
  · next h =>
    apply nearestCode_of_eq (tenPow_pos _)
    have := Nat.div_add_mod (units code) unitsPerOne
    rw [h, Nat.add_zero, Nat.mul_comm] at this
    have hten : tenPow 1 = 10 := rfl
    rw [hten, Nat.mul_assoc, this, Nat.mul_comm]
  · exact nearestCode_shortest code

/-- Every finite number is written with a point. -/
theorem places_decimal_ne_zero (code : Nat) : (decimal code).places ≠ 0 := by
  unfold decimal
  split
  · exact Nat.one_ne_zero
  · exact places_shortest_ne_zero code

/-- What is written for a finite number rounds back to it, the sign apart. -/
theorem nearest_decimal {x : Binary64} (h : x.isFinite = true) : nearest (decimal x.code) = x.abs := by
  have hlt : x.code < infinityCode := of_decide_eq_true h
  have hmin : min x.code infinityCode = x.code := Nat.min_eq_left (Nat.le_of_lt hlt)
  simp [nearest, nearestCode_decimal, ofCode, abs, hmin]

theorem text_of_isFinite {x : Binary64} (h : x.isFinite = true) :
    x.text = String.ofList
      (if x.negative then '-' :: (decimal x.code).toChars else (decimal x.code).toChars) := by
  have hlt : x.code < infinityCode := of_decide_eq_true h
  have hnan : x.isNaN = false := decide_eq_false (Nat.not_lt.2 (Nat.le_of_lt hlt))
  have hinfinite : x.isInfinite = false := decide_eq_false (Nat.ne_of_lt hlt)
  simp [text, magnitudeChars, hnan, hinfinite]

end LoxLexer.Binary64
