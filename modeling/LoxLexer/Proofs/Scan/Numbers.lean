import LoxLexer.Proofs.Binary64.Rounding
import LoxLexer.Proofs.Scan.Rendering

/-!
# Number tokens

The value of a number token is the binary64 number nearest to what its digits denote in decimal.
That is so for every source text, because every lexeme that is cut as a number can be read as one,
and no number is ever left to the value that stands in for an unreadable one. In the other direction
the text of a finite number has a point with digits on both sides, whatever its magnitude, so it is
one number token again, behind a minus if there is one.

## Results

* `numeralValue`: the rational that a numeral denotes, digit by digit.
* `value_of_number`: the value of a number token.
* `scan_number_text`: the scan of a number written out.
-/

namespace LoxLexer

/-! ## What a numeral denotes -/

/-- The number a digit stands for. -/
def digitValue (c : Char) : ℚ := (c.toNat - '0'.toNat : Nat)

/-- The value of digits in front of a point, or without one: each counts ten times the next. -/
def wholeValue (digits : List Char) : ℚ := digits.foldl (fun v c => 10 * v + digitValue c) 0

/-- The value of digits behind a point: each counts a tenth of the one before. -/
def placesValue (digits : List Char) : ℚ := digits.foldr (fun c v => (digitValue c + v) / 10) 0

/-- The rational that a numeral denotes. -/
def numeralValue (numeral : List Char) : ℚ :=
  wholeValue (numeral.takeWhile (· ≠ '.')) + placesValue (numeral.dropWhile (· ≠ '.')).tail

theorem wholeValue_eq (digits : List Char) :
    wholeValue digits = (Nat.ofDigitChars 10 digits 0 : Nat) := by
  have h : ∀ n : Nat, digits.foldl (fun v c => 10 * v + digitValue c) (n : ℚ) =
      (Nat.ofDigitChars 10 digits n : Nat) := by
    induction digits with
    | nil => exact fun _ => rfl
    | cons c digits ih =>
      intro n
      rw [List.foldl_cons, Nat.ofDigitChars_cons, ← ih, Nat.cast_add, Nat.cast_mul, Nat.cast_ofNat]
      rfl
  have hzero := h 0
  rwa [Nat.cast_zero] at hzero

theorem placesValue_eq (digits : List Char) :
    placesValue digits = (Nat.ofDigitChars 10 digits 0 : Nat) / 10 ^ digits.length := by
  induction digits with
  | nil => simp [placesValue]
  | cons c digits ih =>
    have hcons : placesValue (c :: digits) = (digitValue c + placesValue digits) / 10 := rfl
    have hread := @Nat.ofDigitChars_eq_ofDigitChars_zero digits (10 * 0 + (c.toNat - '0'.toNat))
    rw [hcons, ih, Nat.ofDigitChars_cons, hread, List.length_cons, digitValue, Nat.cast_add,
      Nat.cast_mul, Nat.cast_pow, Nat.cast_ofNat, mul_zero, zero_add]
    field_simp
    ring

/-- Digits on both sides of a point, read together and divided by a power of ten. -/
theorem value_of_digits (whole places : List Char) :
    Decimal.value ⟨Nat.ofDigitChars 10 (whole ++ places) 0, places.length⟩ =
      wholeValue whole + placesValue places := by
  rw [Decimal.value, Nat.ofDigitChars_append, Nat.ofDigitChars_eq_ofDigitChars_zero,
    wholeValue_eq, placesValue_eq, Nat.cast_add, Nat.cast_mul, Nat.cast_pow, Nat.cast_ofNat]
  field_simp

/-- A number token denotes what its digits are read as. -/
theorem value_ofChars {lexeme : List Char} (h : IsToken .number lexeme) :
    (Decimal.ofChars lexeme).value = numeralValue lexeme := by
  have hpoint : ∀ {digits : List Char}, (∀ c ∈ digits, c.isDigit = true) →
      ∀ c ∈ digits, decide (c ≠ '.') = true := by
    intro digits hall c hc
    refine decide_eq_true ?_
    rintro rfl
    exact absurd (hall '.' hc) (by decide)
  cases h with
  | mark hm => simp [Opening.marks] at hm
  | alone hm | followed hm => simp [Opening.equalMarks] at hm
  | whole _ hdigits =>
    have hsplit : Decimal.ofChars lexeme = ⟨Nat.ofDigitChars 10 (lexeme ++ []) 0, 0⟩ := by
      simp [Decimal.ofChars, List.takeWhile_eq_self_iff.mpr hdigits,
        List.dropWhile_eq_nil_iff.mpr hdigits]
    rw [hsplit, numeralValue, List.takeWhile_eq_self_iff.mpr (hpoint hdigits),
      List.dropWhile_eq_nil_iff.mpr (hpoint hdigits)]
    exact value_of_digits lexeme []
  | @fraction whole places _ hwhole _ hplaces =>
    have hstop := Decimal.stopsAt_isDigit_point places
    have hend : StopsAt (fun c => decide (c ≠ '.')) ('.' :: places) := by simp [StopsAt]
    have hsplit : Decimal.ofChars (whole ++ '.' :: places) =
        ⟨Nat.ofDigitChars 10 (whole ++ places) 0, places.length⟩ := by
      simp [Decimal.ofChars, takeWhile_append_of_stop hwhole hstop,
        dropWhile_append_of_stop hwhole hstop]
    rw [hsplit, numeralValue, takeWhile_append_of_stop (hpoint hwhole) hend,
      dropWhile_append_of_stop (hpoint hwhole) hend]
    exact value_of_digits whole places

/-- **The value of a number** is the number nearest to what its digits denote; where two are equally
near it is the one with the even significand, and from the middle between the largest finite number
and the next power of two on it is infinity. Its lexeme can always be read. -/
theorem value_of_number {source : String} {t : Token} (ht : t ∈ (scan source).tokens)
    (hkind : t.kind = .number) :
    ∃ x : Binary64, Binary64.ofChars? t.lexeme.toList = some x ∧ t.literal = some (.number x) ∧
      x.isNaN = false ∧ x.negative = false ∧
      (x.isInfinite = true ↔ 2 ^ 1024 - 2 ^ 970 ≤ numeralValue t.lexeme.toList) ∧
      (numeralValue t.lexeme.toList < 2 ^ 1024 - 2 ^ 970 →
        x.IsNearest (numeralValue t.lexeme.toList)) := by
  have hproper : t ∈ (scan source).proper := List.mem_filter.mpr ⟨ht, by simp [hkind]⟩
  obtain ⟨htoken, hliteral⟩ := genuine_of_mem_proper hproper
  rw [hkind] at htoken hliteral
  rw [← value_ofChars htoken]
  exact ⟨_, ofChars?_of_isToken htoken, hliteral, Binary64.isNaN_nearest _, rfl,
    Binary64.isInfinite_nearest_iff _, Binary64.isNearest_nearest⟩

/-- The number behind 2^53 is as near to 2^53 as to 2^53 + 2, whose significand is odd. -/
theorem value_of_number_halfway :
    let t : Token :=
      ⟨.number, "9007199254740993", some (.number (.ofBits 0x4340000000000000)), 1⟩
    t ∈ (scan "x=9007199254740993;").tokens ∧ t.kind = .number ∧
      (Binary64.ofBits 0x4340000000000000).isInfinite = false ∧
      (Binary64.ofBits 0x4340000000000000).IsNearest 9007199254740993 := by
  intro t
  have ht : (scan "x=9007199254740993;").tokens[2]? = some t := by decide +kernel
  obtain ⟨x, -, hliteral, -, -, hinfinite, hnearest⟩ :=
    value_of_number (List.mem_of_getElem? ht) rfl
  cases hliteral
  have hvalue : numeralValue t.lexeme.toList = 9007199254740993 := by decide +kernel
  rw [hvalue] at hinfinite hnearest
  have hlt : (9007199254740993 : ℚ) < 2 ^ 1024 - 2 ^ 970 := by decide +kernel
  have hfinite : (Binary64.ofBits 0x4340000000000000).isInfinite = false := by
    rw [← Bool.not_eq_true, hinfinite]
    exact not_le.mpr hlt
  exact ⟨List.mem_of_getElem? ht, rfl, hfinite, hnearest hlt⟩

/-! ## Numbers written out -/

/-- A decimal with a point is a number token when it is written out. -/
theorem isToken_toChars {d : Decimal} (h : d.places ≠ 0) : IsToken .number d.toChars := by
  have hplaces : d.fractionChars ≠ [] := by
    rw [← List.length_pos_iff, d.length_fractionChars h]
    exact Nat.pos_of_ne_zero h
  rw [Decimal.toChars, if_neg h]
  exact .fraction d.wholeChars_ne_nil d.isDigit_of_mem_wholeChars hplaces
    d.isDigit_of_mem_fractionChars

/-- A number token is the only segment of its text. -/
theorem segments_of_isToken_number {lexeme : List Char} (h : IsToken .number lexeme) :
    segments lexeme = [⟨.token .number, lexeme⟩] := by
  have hbelongs : (⟨.token .number, lexeme⟩ : Segment).Belongs [] := h
  have hsegments := segments_text_append (ne_nil_of_isToken h) hbelongs readsOn_none
  rwa [List.append_nil, segments_nil] at hsegments

/-- A finite number without its sign comes to one number token of its value. -/
theorem token?_decimal {x : Binary64} (h : x.isFinite = true) (line : Nat) :
    (⟨⟨.token .number, (Binary64.decimal x.code).toChars⟩, line⟩ : Located).token? =
      some ⟨.number, x.abs.text, some (.number x.abs), line⟩ := by
  have hfinite : x.abs.isFinite = true := h
  have htext : x.abs.text = String.ofList (Binary64.decimal x.code).toChars :=
    Binary64.text_of_isFinite hfinite
  simp [Located.token?, literal?, Decimal.ofChars_toChars, Binary64.nearest_decimal h, htext]

/-- A scan is what the segments of the text come to. -/
theorem scan_ofList (text : List Char) :
    scan (String.ofList text) =
      ⟨(located text).filterMap Located.token? ++ [.endOfInput (1 + lineFeeds text)],
        (located text).filterMap Located.diagnostic?⟩ := by
  have htokens := tokens_scan (String.ofList text)
  have herrors := errors_scan (String.ofList text)
  rw [String.toList_ofList] at htokens herrors
  rw [← htokens, ← herrors]

/-- **Numbers are found again where they are written.** The text of a finite number is one number
token, with a minus in front of it if the sign bit is set. The token has the same value, bit for
bit, apart from that sign. -/
theorem scan_number_text {x : Binary64} (hfinite : x.isFinite = true) :
    (x.negative = false → scan (Literal.number x).text =
      ⟨[⟨.number, (Literal.number x).text, some (.number x), 1⟩, .endOfInput 1], []⟩) ∧
    (x.negative = true → scan (Literal.number x).text =
      ⟨[⟨.minus, "-", none, 1⟩,
        ⟨.number, (Literal.number x.abs).text, some (.number x.abs), 1⟩, .endOfInput 1], []⟩) := by
  have htoken := isToken_toChars (Binary64.places_decimal_ne_zero x.code)
  have hsegments := segments_of_isToken_number htoken
  have hlines : lineFeeds (Binary64.decimal x.code).toChars = 0 :=
    List.count_eq_zero.mpr (blank_not_mem_of_isToken (by decide) htoken (by decide))
  have hvalue := token?_decimal hfinite 1
  have htext := Binary64.text_of_isFinite hfinite
  constructor
  · intro hsign
    have habs : x.abs = x := by
      rw [Binary64.abs, ← hsign]
    rw [habs] at hvalue
    rw [hsign, if_neg Bool.false_ne_true] at htext
    have hlocated : located (Binary64.decimal x.code).toChars =
        [⟨⟨.token .number, (Binary64.decimal x.code).toChars⟩, 1⟩] := by
      rw [located, hsegments, locate_cons, locate_nil]
    rw [Literal.text, htext, scan_ofList, hlocated, hlines, List.filterMap_cons_some hvalue, htext]
    rfl
  · intro hsign
    rw [hsign, if_pos rfl] at htext
    have hcut : cut '-' (Binary64.decimal x.code).toChars =
        (⟨.token .minus, ['-']⟩, (Binary64.decimal x.code).toChars) := rfl
    have hlocated : located ('-' :: (Binary64.decimal x.code).toChars) =
        [⟨⟨.token .minus, ['-']⟩, 1⟩,
          ⟨⟨.token .number, (Binary64.decimal x.code).toChars⟩, 1⟩] := by
      rw [located, segments_cons, hcut, hsegments, locate_cons, locate_cons, locate_nil]
      rfl
    have hminus : (⟨⟨.token .minus, ['-']⟩, 1⟩ : Located).token? =
        some ⟨.minus, "-", none, 1⟩ := rfl
    have hlinesMinus : lineFeeds ('-' :: (Binary64.decimal x.code).toChars) = 0 := by
      rw [lineFeeds_cons, hlines]
      rfl
    rw [Literal.text, htext, scan_ofList, hlocated, hlinesMinus, List.filterMap_cons_some hminus,
      List.filterMap_cons_some hvalue]
    rfl

/-- The number nearest to -0.1, and one that a double cannot hold without rounding. -/
theorem scan_text_of_minus_tenth :
    (Binary64.ofBits 0xBFB999999999999A).isFinite = true ∧
      scan "-0.1" =
        ⟨[⟨.minus, "-", none, 1⟩,
          ⟨.number, "0.1", some (.number (.ofBits 0x3FB999999999999A)), 1⟩, .endOfInput 1], []⟩ := by
  have hfinite : (Binary64.ofBits 0xBFB999999999999A).isFinite = true := by decide +kernel
  have htext : (Literal.number (.ofBits 0xBFB999999999999A)).text = "-0.1" := by decide +kernel
  have hvalue : (Binary64.ofBits 0xBFB999999999999A).abs = .ofBits 0x3FB999999999999A := by
    decide +kernel
  have htextValue : (Literal.number (.ofBits 0x3FB999999999999A)).text = "0.1" := by
    decide +kernel
  have hscan := (scan_number_text hfinite).2 (by decide +kernel)
  rw [htext, hvalue, htextValue] at hscan
  exact ⟨hfinite, hscan⟩

end LoxLexer
