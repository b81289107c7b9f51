/-!
# Binary64 numbers

A number of the binary64 interchange format is a sign and a *magnitude code*, the low 63 bits of
its word. Codes are ordered as the magnitudes they stand for, so the next larger magnitude is the
next code, infinity is the code after the largest finite one, and every code above it is a NaN.

A code is an exponent over 52 binary digits of a fraction, so codes 2^52 apart (`0x10000000000000`)
differ in the exponent alone. Finite magnitudes are multiples of 2^-1074, the smallest one above
zero. `units` counts in that unit, which keeps all arithmetic on natural numbers. It goes on above
the infinity code as if exponents had no end.

Results:
* `Binary64.ofBits_toBits`, `Binary64.toBits_ofBits` — numbers and 64-bit words are the same thing.
* `==` on `Binary64` — equality as numbers: a NaN equals nothing, and the two zeros are equal.
-/

namespace LoxLexer

/-- A number of the binary64 interchange format. -/
structure Binary64 where
  negative : Bool
  code : Nat
  code_lt : code < 0x8000000000000000
deriving DecidableEq

namespace Binary64

/-- The magnitude code of the two infinities. -/
def infinityCode : Nat := 0x7FF0000000000000

/-- The magnitude of a code in units of 2^-1074: the fraction as it is below the first power of two,
and from there on with a leading one and doubled for every step of the exponent. -/
def units (code : Nat) : Nat :=
  let exponent := code / 0x10000000000000
  let fraction := code % 0x10000000000000
  if exponent = 0 then fraction else (0x10000000000000 + fraction) <<< (exponent - 1)

/-- The binary places of a unit, and so the decimal places it needs at most. -/
def unitPlaces : Nat := 1074

/-- How many units make one. -/
def unitsPerOne : Nat := 1 <<< unitPlaces

/-- Whether this is no number. -/
def isNaN (x : Binary64) : Bool := infinityCode < x.code

/-- Whether this is one of the two infinities. -/
def isInfinite (x : Binary64) : Bool := x.code = infinityCode

/-- Whether this is a number with a magnitude of its own. -/
def isFinite (x : Binary64) : Bool := x.code < infinityCode

/-- A finite or infinite number; codes above infinity's become infinity. -/
def ofCode (negative : Bool) (code : Nat) : Binary64 where
  negative
  code := min code infinityCode
  code_lt := by
    have := Nat.min_le_right code infinityCode
    simp only [infinityCode] at this ⊢
    omega

/-- The same magnitude with the sign bit clear. -/
def abs (x : Binary64) : Binary64 := { x with negative := false }

/-- Equality of the numbers themselves, not of their bits. -/
instance : BEq Binary64 where
  beq x y :=
    !x.isNaN && !y.isNaN && x.code == y.code && (x.negative == y.negative || x.code == 0)

/-! ## Words -/

/-- The number that a 64-bit word stands for. -/
def ofBits (word : UInt64) : Binary64 where
  negative := 0x8000000000000000 ≤ word.toNat
  code := word.toNat % 0x8000000000000000
  code_lt := Nat.mod_lt _ (by decide)

/-- The 64-bit word of a number. -/
def toBits (x : Binary64) : UInt64 :=
  UInt64.ofNat (if x.negative then 0x8000000000000000 + x.code else x.code)

theorem ofBits_toBits (x : Binary64) : ofBits x.toBits = x := by
  obtain ⟨negative, code, h⟩ := x
  cases negative <;> simp only [ofBits, toBits, Bool.false_eq_true, if_false, if_true,
    UInt64.toNat_ofNat', mk.injEq, decide_eq_true_eq, decide_eq_false_iff_not] <;> omega

theorem toBits_ofBits (word : UInt64) : (ofBits word).toBits = word := by
  have h := word.toNat_lt
  apply UInt64.toNat_inj.1
  simp only [ofBits, toBits, decide_eq_true_eq, UInt64.toNat_ofNat']
  split <;> omega

end Binary64

end LoxLexer
