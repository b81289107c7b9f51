import LoxLexer.Text.Span

/-!
# Decimal numerals

A numeral such as `12.50` is held as the number its digits spell (`1250`) and the count of digits
after the point (`2`), so its value is the digits over that power of ten, exactly.

Results:
* `Decimal.ofChars` — the value of digits with an optional point and more digits.
* `Decimal.toChars` — the digits again, with as many after the point as `places` says.
* `Decimal.ofChars_toChars` — a numeral that is written reads back as itself.
-/

namespace LoxLexer

/-- The power of ten that digits with so many places are divided by. -/
def tenPow (places : Nat) : Nat := Nat.pow 10 places

theorem tenPow_pos (places : Nat) : 0 < tenPow places := Nat.pow_pos (by decide)

/-- The decimal numeral of value `digits / tenPow places`. -/
structure Decimal where
  digits : Nat
  places : Nat
deriving DecidableEq, Repr

namespace Decimal

/-- The value of a numeral: what its digits spell without the point, and how many follow it. -/
def ofChars (numeral : List Char) : Decimal :=
  let whole := numeral.takeWhile Char.isDigit
  let fraction := (numeral.dropWhile Char.isDigit).drop 1
  ⟨Nat.ofDigitChars 10 (whole ++ fraction) 0, fraction.length⟩

/-- The digits before the point; below one that is a single zero. -/
def wholeChars (d : Decimal) : List Char :=
  Nat.toDigits 10 (d.digits / tenPow d.places)

/-- The digits after the point, filled up with zeros from the left. -/
def fractionChars (d : Decimal) : List Char :=
  (Nat.toDigits 10 (d.digits % tenPow d.places)).leftpad d.places '0'

/-- The numeral written out, without an exponent. -/
def toChars (d : Decimal) : List Char :=
  if d.places = 0 then d.wholeChars else d.wholeChars ++ '.' :: d.fractionChars

/-! ## What is written reads back -/

theorem isDigit_of_mem_wholeChars (d : Decimal) : ∀ c ∈ d.wholeChars, c.isDigit = true :=
  fun _ h => Nat.isDigit_of_mem_toDigits (by decide) (by decide) h

theorem wholeChars_ne_nil (d : Decimal) : d.wholeChars ≠ [] :=
  Nat.toDigits_ne_nil

theorem isDigit_of_mem_fractionChars (d : Decimal) : ∀ c ∈ d.fractionChars, c.isDigit = true := by
  intro c h
  rcases List.mem_append.1 h with h | h
  · rw [(List.mem_replicate.1 h).2]; decide
  · exact Nat.isDigit_of_mem_toDigits (by decide) (by decide) h

/-- The fraction has exactly the digits asked for. -/
theorem length_fractionChars (d : Decimal) (h : d.places ≠ 0) :
    d.fractionChars.length = d.places := by
  have hlt : d.digits % tenPow d.places < tenPow d.places := Nat.mod_lt _ (tenPow_pos d.places)
  have hle := (Nat.length_toDigits_le_iff (by decide) (Nat.pos_of_ne_zero h)).2 hlt
  simp [fractionChars, List.leftpad]
  omega

theorem ofDigitChars_wholeChars (d : Decimal) :
    Nat.ofDigitChars 10 d.wholeChars 0 = d.digits / tenPow d.places :=
  Nat.ofDigitChars_ten_toDigits

theorem ofDigitChars_fractionChars (d : Decimal) :
    Nat.ofDigitChars 10 d.fractionChars 0 = d.digits % tenPow d.places := by
  simp [fractionChars, List.leftpad, Nat.ofDigitChars_append, Nat.ofDigitChars_replicate_zero,
    Nat.ofDigitChars_ten_toDigits]

/-- The point ends the run of digits before it, and so does the end of the text. -/
theorem stopsAt_isDigit_point (rest : List Char) : StopsAt Char.isDigit ('.' :: rest) := by
  intro c h
  obtain rfl : '.' = c := by simpa using h
  decide

theorem ofChars_toChars (d : Decimal) : ofChars d.toChars = d := by
  obtain ⟨digits, places⟩ := d
  have hw := isDigit_of_mem_wholeChars ⟨digits, places⟩
  by_cases h : places = 0
  · subst h
    have hend : StopsAt Char.isDigit [] := by simp [StopsAt]
    have ht := takeWhile_append_of_stop hw hend
    have hd := dropWhile_append_of_stop hw hend
    rw [List.append_nil] at ht hd
    have hone : tenPow 0 = 1 := rfl
    simp [ofChars, toChars, ht, hd, ofDigitChars_wholeChars, hone]
  · have hpoint := stopsAt_isDigit_point (fractionChars ⟨digits, places⟩)
    have hl := length_fractionChars ⟨digits, places⟩ h
    have hval := @Nat.ofDigitChars_eq_ofDigitChars_zero (fractionChars ⟨digits, places⟩)
      (digits / tenPow places)
    simp only [ofChars, toChars, h, if_false, takeWhile_append_of_stop hw hpoint,
      dropWhile_append_of_stop hw hpoint, List.drop_one, List.tail_cons, hl,
      Nat.ofDigitChars_append, ofDigitChars_wholeChars, hval, ofDigitChars_fractionChars]
    exact congrArg (Decimal.mk · places) (Nat.div_add_mod digits (tenPow places))

end Decimal

end LoxLexer
