import LoxLexer.Binary64.Nearest

/-!
# The shortest decimal of a binary64 number

A magnitude that is not whole is written with the fewest places after the point that still round
to it. On the grid of decimals with a given number of places only the two neighbours of the
magnitude can be nearest to it, so the search tries these two on the grids of one place, two
places and so on. It ends at 1074 places at the latest, since a unit is 5^1074 / 10^1074.

Results:
* `nearestCode_of_eq` — a quotient that is exactly a code's magnitude rounds to that code.
* `nearestCode_shortest` — the decimal found rounds back to the code it was found for.
* `places_shortest_ne_zero` — it has a place at least.
-/

namespace LoxLexer.Binary64

/-- The decimal with so many places that rounds to `code`, if there is one: the nearer of the two
neighbours, the upper one where both are equally near, and the other if only that one rounds. -/
def decimalAt? (code places : Nat) : Option Decimal :=
  let scaled := units code * tenPow places
  let lower := scaled / unitsPerOne
  let roundsBack digits := nearestCode digits (tenPow places) = code
  let candidates :=
    if unitsPerOne ≤ 2 * (scaled % unitsPerOne) then [lower + 1, lower] else [lower, lower + 1]
  (candidates.find? fun digits => roundsBack digits).map (⟨·, places⟩)

/-- The magnitude of a code as a decimal, nothing rounded. -/
def exactDecimal (code : Nat) : Decimal := ⟨units code * Nat.pow 5 unitPlaces, unitPlaces⟩

/-- The decimal with the fewest places, one at least, that rounds to `code`. -/
def shortest (code : Nat) : Decimal :=
  ((List.range' 1 unitPlaces).findSome? (decimalAt? code)).getD (exactDecimal code)

/-! ## The decimal found rounds back -/

theorem floorCode_units (code : Nat) : floorCode (units code) = code := by
  have h1 := units_floorCode_le (units code)
  have h2 := lt_units_floorCode_succ (units code)
  have h3 := lt_of_units_lt h2
  have h4 : ¬ code < floorCode (units code) := fun h => by
    have := units_lt_units h
    omega
  omega

theorem nearestCode_of_eq {num den code : Nat} (hden : 0 < den)
    (h : num * unitsPerOne = units code * den) : nearestCode num den = code := by
  have hfloor : floorCode (num * unitsPerOne / den) = code := by
    rw [h, Nat.mul_div_cancel _ hden, floorCode_units]
  have hgap : 0 < gap code * den := Nat.mul_pos (gap_pos code) hden
  have hlt : 2 * num * unitsPerOne < (units code + units (code + 1)) * den := by
    rw [Nat.mul_assoc, h, units_succ, Nat.add_mul, Nat.add_mul]
    omega
  simp only [nearestCode, hfloor, hlt, if_true]

theorem nearestCode_exactDecimal (code : Nat) :
    nearestCode (exactDecimal code).digits (tenPow (exactDecimal code).places) = code := by
  have hpow : ∀ n k : Nat, n * Nat.pow 5 k * 1 <<< k = n * tenPow k := fun n k => by
    rw [tenPow, Nat.pow_eq, Nat.pow_eq, Nat.shiftLeft_eq, Nat.one_mul, Nat.mul_assoc, ← Nat.mul_pow]
  exact nearestCode_of_eq (tenPow_pos _) (by simp only [exactDecimal, unitsPerOne, hpow])

theorem nearestCode_decimalAt? {code places : Nat} {d : Decimal}
    (h : decimalAt? code places = some d) : nearestCode d.digits (tenPow d.places) = code := by
  simp only [decimalAt?, Option.map_eq_some_iff] at h
  obtain ⟨digits, hfound, rfl⟩ := h
  simpa using List.find?_some hfound

theorem nearestCode_shortest (code : Nat) :
    nearestCode (shortest code).digits (tenPow (shortest code).places) = code := by
  unfold shortest
  cases h : (List.range' 1 unitPlaces).findSome? (decimalAt? code) with
  | none => exact nearestCode_exactDecimal code
  | some d =>
    obtain ⟨places, -, hd⟩ := List.exists_of_findSome?_eq_some h
    exact nearestCode_decimalAt? hd

/-- A magnitude is never written without a point. -/
theorem places_shortest_ne_zero (code : Nat) : (shortest code).places ≠ 0 := by
  unfold shortest
  cases h : (List.range' 1 unitPlaces).findSome? (decimalAt? code) with
  | none => exact Nat.succ_ne_zero 1073
  | some d =>
    obtain ⟨places, hplaces, hd⟩ := List.exists_of_findSome?_eq_some h
    simp only [decimalAt?, Option.map_eq_some_iff] at hd
    obtain ⟨digits, -, rfl⟩ := hd
    exact Nat.ne_of_gt (List.mem_range'_1.1 hplaces).1

end LoxLexer.Binary64
