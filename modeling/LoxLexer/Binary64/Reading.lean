import LoxLexer.Binary64.Nearest

/-!
# Binary64 numbers from text

A number is written as a numeral or as a name, with an optional sign in front. A numeral is digits
with at most one point in front of, among or behind them, and an optional exponent; the names are
`inf`, `infinity` and `nan`. Letters may be of either case. Nothing else is a number, so there is no
reading for a text with a blank character, for a lone point or for the empty text. A numeral is
rounded to the nearest number.

Results:
* `Binary64.ofChars?` — the number that a text stands for, if it stands for one.
* `Binary64.ofChars?_whole`, `Binary64.ofChars?_fraction` — digits are a number, and so are digits
  with a point and digits.
-/

namespace LoxLexer

/-- The sign in front of a text, and what follows it. What has no sign is not negative. -/
def splitSign : List Char → Bool × List Char
  | '-' :: rest => (true, rest)
  | '+' :: rest => (false, rest)
  | text => (false, text)

namespace Decimal

/-- The exponent that ends a numeral. There may be none, but an `e` needs digits behind it. -/
def exponent? : List Char → Option (Bool × Nat)
  | [] => some (false, 0)
  | mark :: text =>
    let (negative, digits) := splitSign text
    if mark.toLower = 'e' && !digits.isEmpty && digits.all Char.isDigit then
      some (negative, Nat.ofDigitChars 10 digits 0)
    else none

/-- A numeral times a power of ten, or divided by one. -/
def scale (d : Decimal) (negative : Bool) (exponent : Nat) : Decimal :=
  if negative then { d with places := d.places + exponent }
  else { d with digits := d.digits * tenPow exponent }

/-- The value of a numeral with an exponent. -/
def ofChars? (text : List Char) : Option Decimal :=
  let whole := text.takeWhile Char.isDigit
  let behind := text.dropWhile Char.isDigit
  let (fraction, rest) :=
    match behind with
    | '.' :: after => (after.takeWhile Char.isDigit, after.dropWhile Char.isDigit)
    | _ => ([], behind)
  if whole.isEmpty && fraction.isEmpty then none
  else
    (exponent? rest).map fun (negative, exponent) =>
      scale ⟨Nat.ofDigitChars 10 (whole ++ fraction) 0, fraction.length⟩ negative exponent

theorem scale_zero (d : Decimal) : d.scale false 0 = d := by
  have hone : tenPow 0 = 1 := rfl
  simp [scale, hone]

theorem ofChars?_whole {digits : List Char} (hne : digits ≠ [])
    (h : ∀ c ∈ digits, c.isDigit = true) : ofChars? digits = some (ofChars digits) := by
  have hend : StopsAt Char.isDigit [] := by simp [StopsAt]
  have ht := takeWhile_append_of_stop h hend
  have hd := dropWhile_append_of_stop h hend
  rw [List.append_nil] at ht hd
  simp [ofChars?, ofChars, ht, hd, hne, exponent?, scale_zero]

theorem ofChars?_fraction {whole places : List Char} (hne : whole ≠ [])
    (hw : ∀ c ∈ whole, c.isDigit = true) (hp : ∀ c ∈ places, c.isDigit = true) :
    ofChars? (whole ++ '.' :: places) = some (ofChars (whole ++ '.' :: places)) := by
  have hpoint := stopsAt_isDigit_point places
  have hend : StopsAt Char.isDigit [] := by simp [StopsAt]
  have ht := takeWhile_append_of_stop hp hend
  have hd := dropWhile_append_of_stop hp hend
  rw [List.append_nil] at ht hd
  simp [ofChars?, ofChars, takeWhile_append_of_stop hw hpoint, dropWhile_append_of_stop hw hpoint,
    ht, hd, hne, exponent?, scale_zero]

end Decimal

namespace Binary64

/-- Zero, with the sign bit clear. -/
def zero : Binary64 := ⟨false, 0, by decide⟩

/-- The number that a text stands for. -/
def ofChars? (text : List Char) : Option Binary64 :=
  let (negative, magnitude) := splitSign text
  let name := magnitude.map Char.toLower
  if name = "inf".toList || name = "infinity".toList then some (.ofCode negative infinityCode)
  else if name = "nan".toList then some ⟨negative, 0x7FF8000000000000, by decide⟩
  else (Decimal.ofChars? magnitude).map fun d => { nearest d with negative }

/-- A digit has no case. -/
theorem toLower_of_isDigit {c : Char} (hc : c.isDigit = true) : c.toLower = c := by
  unfold Char.toLower
  refine dif_neg fun ⟨hletter, _⟩ => ?_
  have hdigit : c.val.toNat ≤ '9'.val.toNat := of_decide_eq_true (Bool.and_eq_true_iff.mp hc).2
  have hfirst : 'A'.val.toNat ≤ c.val.toNat := hletter
  have hbetween : '9'.val.toNat < 'A'.val.toNat := by decide
  omega

/-- What starts with a digit has no sign and is no name. -/
theorem ofChars?_of_isDigit {c : Char} {text : List Char} (hc : c.isDigit = true) :
    ofChars? (c :: text) = (Decimal.ofChars? (c :: text)).map nearest := by
  have hne : ∀ a : Char, a.isDigit = false → c ≠ a := by
    rintro a ha rfl
    rw [ha] at hc
    cases hc
  have hsign : splitSign (c :: text) = (false, c :: text) := by
    unfold splitSign
    split
    · next h => exact absurd (List.cons.inj h).1 (hne '-' rfl)
    · next h => exact absurd (List.cons.inj h).1 (hne '+' rfl)
    · rfl
  have hround : (fun d => { nearest d with negative := false }) = nearest := rfl
  simp [ofChars?, hsign, hround, toLower_of_isDigit hc, hne 'i' rfl, hne 'n' rfl]

theorem ofChars?_whole {digits : List Char} (hne : digits ≠ [])
    (h : ∀ c ∈ digits, c.isDigit = true) :
    ofChars? digits = some (.nearest (.ofChars digits)) := by
  obtain ⟨c, rest, rfl⟩ := List.exists_cons_of_ne_nil hne
  rw [ofChars?_of_isDigit (h c List.mem_cons_self), Decimal.ofChars?_whole hne h]
  rfl

theorem ofChars?_fraction {whole places : List Char} (hne : whole ≠ [])
    (hw : ∀ c ∈ whole, c.isDigit = true) (hp : ∀ c ∈ places, c.isDigit = true) :
    ofChars? (whole ++ '.' :: places) = some (.nearest (.ofChars (whole ++ '.' :: places))) := by
  have hread := Decimal.ofChars?_fraction hne hw hp
  obtain ⟨c, rest, rfl⟩ := List.exists_cons_of_ne_nil hne
  rw [List.cons_append] at hread ⊢
  rw [ofChars?_of_isDigit (hw c List.mem_cons_self), hread]
  rfl

end Binary64

end LoxLexer
