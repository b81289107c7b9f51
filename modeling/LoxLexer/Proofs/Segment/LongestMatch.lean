import Mathlib.Data.List.TakeWhile
import LoxLexer.Proofs.Scanner.Segments
import LoxLexer.Proofs.Segment.Grammar

/-!
# Longest match

`cut` takes the longest stretch that belongs to any class, and nothing else does: whatever belongs
to a class at the same place is the segment that is cut, or shorter (`eq_cut_or_shorter`). So a text
has one division, and a scan lists it.

## Results

* `closeComment_of_first`, `exists_body_of_closeComment`, `closeComment_eq_none_iff`: a block comment
  ends at its first closer, and without one it does not end.
* `belongs_cut`, `eq_cut_or_shorter`: what is cut belongs to its class, and nothing beats it.
* `division_iff`: the one division of a text is `segments`.
* `scan_lists_division`: tokens and diagnostics of a scan are those of the division.
-/

namespace LoxLexer

/-! ## Block comments -/

theorem not_closer_infix_nil : ¬ closer <:+: [] := by
  rw [List.infix_nil]
  exact List.cons_ne_nil _ _

/-- A closer is somewhere in a text if it is in front or in what follows. -/
theorem closer_infix_cons_iff {c : Char} {text : List Char} :
    closer <:+: c :: text ↔ (c = '*' ∧ text.head? = some '/') ∨ closer <:+: text := by
  rw [List.infix_cons_iff]
  refine or_congr_left ?_
  cases text with
  | nil => simp [closer]
  | cons b text => simp [closer, eq_comm (a := '*'), eq_comm (a := '/')]

/-- A closer ends in a slash. -/
theorem not_closer_infix_concat {c : Char} {text : List Char} (hc : c ≠ '/')
    (h : ¬ closer <:+: text) : ¬ closer <:+: text ++ [c] := by
  rw [List.infix_concat_iff, not_or, List.suffix_concat_iff]
  refine ⟨?_, h⟩
  rintro (hnil | ⟨front, hfront, -⟩)
  · exact List.cons_ne_nil _ _ hnil
  · have hlast := congrArg List.getLast? hfront
    rw [List.getLast?_concat] at hlast
    exact hc (Option.some.inj hlast).symm

theorem closeComment_eq_none_iff {read text : List Char} :
    closeComment read text = none ↔ ¬ closer <:+: text := by
  fun_induction closeComment read text with
  | case1 read rest => simp [closer_infix_cons_iff]
  | case2 read c rest hopen ih =>
    rw [ih, closer_infix_cons_iff, not_or]
    refine ⟨fun h => ⟨?_, h⟩, fun h => h.2⟩
    rintro ⟨rfl, hhead⟩
    obtain ⟨after, rfl⟩ := List.head?_eq_some_iff.mp hhead
    exact hopen after rfl rfl
  | case3 => exact iff_of_true rfl not_closer_infix_nil

theorem closeComment_of_first {body : List Char} (h : ¬ closer <:+: body ++ ['*'])
    (read after : List Char) :
    closeComment read (body ++ '*' :: '/' :: after) =
      some (read.reverse ++ body ++ closer, after) := by
  induction body generalizing read with
  | nil => simp [closeComment, closer]
  | cons a body ih =>
    rw [List.cons_append, closer_infix_cons_iff, not_or] at h
    have hopen : ∀ rest, a = '*' → body ++ '*' :: '/' :: after = '/' :: rest → False := by
      intro rest ha hbody
      refine h.1 ⟨ha, ?_⟩
      cases body with
      | nil => simp at hbody
      | cons b body => simpa using congrArg List.head? hbody
    rw [List.cons_append, closeComment.eq_2 _ _ _ hopen, ih h.2]
    simp

theorem exists_body_of_closeComment {read text comment after : List Char}
    (h : closeComment read text = some (comment, after)) :
    ∃ body, comment = read.reverse ++ body ++ closer ∧ text = body ++ closer ++ after ∧
      ¬ closer <:+: body ++ ['*'] := by
  fun_induction closeComment read text with
  | case1 read rest =>
    obtain ⟨rfl, rfl⟩ := Prod.mk.inj (Option.some.inj h)
    exact ⟨[], by simp [closer], rfl, by decide⟩
  | case2 read c rest hopen ih =>
    obtain ⟨body, rfl, hrest, hbody⟩ := ih h
    refine ⟨c :: body, by simp, by rw [hrest]; rfl, ?_⟩
    rw [List.cons_append, closer_infix_cons_iff, not_or]
    refine ⟨?_, hbody⟩
    rintro ⟨rfl, hhead⟩
    cases body with
    | nil => simp at hhead
    | cons b body =>
      obtain rfl : b = '/' := by simpa using hhead
      exact hopen _ rfl hrest
  | case3 => simp at h

/-! ## Stretches that cannot be longer -/

/-- Of two stretches at the same place, one that is not longer is the other, or shorter. -/
theorem eq_or_length_lt {s t rest after : List Char} (h : s ++ rest = t ++ after)
    (hle : s.length ≤ t.length) : s = t ∨ s.length < t.length := by
  rcases Nat.lt_or_eq_of_le hle with hlt | heq
  · exact Or.inr hlt
  · exact Or.inl (List.append_inj_left h heq)

theorem length_le_length_takeWhile {p : Char → Bool} {run : List Char}
    (h : ∀ a ∈ run, p a = true) (rest : List Char) :
    run.length ≤ ((run ++ rest).takeWhile p).length := by
  rw [List.takeWhile_append_of_pos h, List.length_append]
  exact Nat.le_add_right _ _

/-- A number that goes on is no longer than what is read of it. -/
theorem length_le_restOfNumber {digits : List Char} (h : ∀ a ∈ digits, a.isDigit = true)
    (rest : List Char) : digits.length ≤ (restOfNumber (digits ++ rest)).1.length := by
  have hrun := length_le_length_takeWhile h rest
  by_cases hpoint : ∃ d after,
      (digits ++ rest).dropWhile Char.isDigit = '.' :: d :: after ∧ d.isDigit = true
  · obtain ⟨d, after, hdrop, hd⟩ := hpoint
    rw [restOfNumber_of_fraction hdrop hd, List.length_append]
    omega
  · rw [restOfNumber_of_whole hpoint]
    exact hrun

theorem length_fraction_le_restOfNumber {digits places : List Char}
    (h : ∀ a ∈ digits, a.isDigit = true) (hne : places ≠ [])
    (hp : ∀ a ∈ places, a.isDigit = true) (rest : List Char) :
    (digits ++ '.' :: places).length ≤
      (restOfNumber (digits ++ '.' :: places ++ rest)).1.length := by
  obtain ⟨d, places, rfl⟩ := List.exists_cons_of_ne_nil hne
  have hstop := Decimal.stopsAt_isDigit_point (d :: (places ++ rest))
  have hrun := length_le_length_takeWhile (fun a ha => hp a (List.mem_cons_of_mem d ha)) rest
  have hdrop := dropWhile_append_of_stop h hstop
  have htake := takeWhile_append_of_stop h hstop
  rw [List.append_assoc, List.cons_append, List.cons_append,
    restOfNumber_of_fraction hdrop (hp d List.mem_cons_self), htake]
  simp only [List.length_append, List.length_cons]
  omega

/-! ## What is cut belongs to its class -/

theorem ofWord_keyword (k : Keyword) : Kind.ofWord k.word.toList = .keyword k := by
  rw [Kind.ofWord, String.ofList_toList, Keyword.ofWord?_word]

theorem ofWord_identifier {lexeme : List Char} (h : ∀ k : Keyword, k.word.toList ≠ lexeme) :
    Kind.ofWord lexeme = .identifier := by
  unfold Kind.ofWord
  cases hk : Keyword.ofWord? (String.ofList lexeme) with
  | none => rfl
  | some k =>
    have hword := Keyword.ofWord?_eq_some_iff.mp hk
    exact absurd (by rw [hword, String.toList_ofList]) (h k)

theorem isToken_ofWord {c : Char} {rest : List Char} (hc : isWordStart c = true)
    (hrest : ∀ a ∈ rest, isWordPart a = true) : IsToken (.ofWord (c :: rest)) (c :: rest) := by
  unfold Kind.ofWord
  cases hk : Keyword.ofWord? (String.ofList (c :: rest)) with
  | some k =>
    have hword : k.word.toList = c :: rest := by
      rw [Keyword.ofWord?_eq_some_iff.mp hk, String.toList_ofList]
    rw [← hword]
    exact .keyword k
  | none =>
    refine .identifier hc hrest fun k hword => ?_
    rw [← hword, String.ofList_toList, Keyword.ofWord?_word] at hk
    exact absurd hk (by simp)

/-- The letters of a reserved word. -/
theorem exists_word (k : Keyword) :
    ∃ c rest, k.word.toList = c :: rest ∧ isWordStart c = true ∧
      ∀ a ∈ rest, isWordPart a = true := by
  cases k <;> exact ⟨_, _, rfl, rfl, List.all_eq_true.mp rfl⟩

/-- A character that opens something starts a token or trivia. -/
theorem exists_of_not_stray {c : Char} (h : Opening.of c ≠ .stray) :
    (∃ kind lexeme, IsToken kind lexeme ∧ lexeme.head? = some c) ∨
      ∃ lexeme, IsTrivia lexeme ∧ lexeme.head? = some c := by
  cases hopen : Opening.of c with
  | mark kind => exact Or.inl ⟨kind, [c], .mark (Opening.announces_of_eq hopen), rfl⟩
  | withEqual alone followed =>
    exact Or.inl ⟨alone, [c], .alone (Opening.announces_of_eq hopen), rfl⟩
  | slash =>
    obtain rfl : c = '/' := Opening.announces_of_eq hopen
    exact Or.inl ⟨.slash, ['/'], .slash, rfl⟩
  | blank =>
    have hc : c ∈ [' ', '\r', '\t'] := Opening.announces_of_eq hopen
    exact Or.inr ⟨[c], .blank (List.mem_append_left ['\n'] hc), rfl⟩
  | lineFeed =>
    obtain rfl : c = '\n' := Opening.announces_of_eq hopen
    exact Or.inr ⟨['\n'], .blank (by decide), rfl⟩
  | quote =>
    obtain rfl : c = '"' := Opening.announces_of_eq hopen
    have hnone : ∀ a ∈ ([] : List Char), a ≠ '"' := by simp
    exact Or.inl ⟨.string, ['"', '"'], .string hnone, rfl⟩
  | digit =>
    exact Or.inl ⟨.number, _, isToken_number (Opening.announces_of_eq hopen) [], rfl⟩
  | wordStart =>
    exact Or.inl ⟨_, [c], isToken_ofWord (Opening.announces_of_eq hopen) (by simp), rfl⟩
  | stray => exact absurd hopen h

theorem exists_body_of_isToken_string {lexeme : List Char} (h : IsToken .string lexeme) :
    ∃ body, lexeme = '"' :: (body ++ ['"']) ∧ '"' ∉ body := by
  cases h with
  | mark hm => simp [Opening.marks] at hm
  | alone hm | followed hm => simp [Opening.equalMarks] at hm
  | @string body hbody => exact ⟨body, rfl, fun hmem => hbody '"' hmem rfl⟩

/-- What the first character of a token of a kind announces. -/
def Kind.opening : Kind → Opening
  | bang | bangEqual => .withEqual .bang .bangEqual
  | equal | equalEqual => .withEqual .equal .equalEqual
  | less | lessEqual => .withEqual .less .lessEqual
  | greater | greaterEqual => .withEqual .greater .greaterEqual
  | slash => .slash
  | keyword _ | identifier => .wordStart
  | string => .quote
  | number => .digit
  | kind => .mark kind

/-- **The first character of a token announces its kind.** -/
theorem opening_of_isToken {kind : Kind} {lexeme : List Char} {c : Char} (h : IsToken kind lexeme)
    (hc : lexeme.head? = some c) : Opening.of c = kind.opening := by
  have of_digits : ∀ digits : List Char, (∀ a ∈ digits, a.isDigit = true) →
      digits.head? = some c → Opening.of c = .digit := by
    intro digits hall hhead
    have hd : c.isDigit = true := hall c (List.mem_of_head? hhead)
    exact Opening.of_eq_of_announces (o := .digit) hd (by simp)
  have hmarks : ∀ p ∈ Opening.marks, p.2.opening = .mark p.2 := by decide
  have hequal : ∀ p ∈ Opening.equalMarks,
      p.2.1.opening = .withEqual p.2.1 p.2.2 ∧ p.2.2.opening = .withEqual p.2.1 p.2.2 := by decide
  cases h with
  | mark hm =>
    cases hc
    rw [hmarks _ hm]
    exact Opening.of_eq_of_announces (o := .mark kind) hm (by simp)
  | alone hm =>
    cases hc
    rw [(hequal _ hm).1]
    exact Opening.of_eq_of_announces (o := .withEqual _ _) hm (by simp)
  | followed hm =>
    cases hc
    rw [(hequal _ hm).2]
    exact Opening.of_eq_of_announces (o := .withEqual _ _) hm (by simp)
  | slash | string => cases hc; rfl
  | whole hne hall => exact of_digits _ hall hc
  | fraction hne hall _ _ =>
    rw [List.head?_append_of_ne_nil _ hne] at hc
    exact of_digits _ hall hc
  | keyword k =>
    obtain ⟨a, rest, hword, ha, -⟩ := exists_word k
    rw [hword] at hc
    cases hc
    exact Opening.of_eq_of_announces (o := .wordStart) ha (by simp)
  | identifier ha _ _ =>
    cases hc
    exact Opening.of_eq_of_announces (o := .wordStart) ha (by simp)

theorem not_stray_of_isToken {kind : Kind} {lexeme : List Char} {c : Char}
    (h : IsToken kind lexeme) (hc : lexeme.head? = some c) : Opening.of c ≠ .stray := by
  rw [opening_of_isToken h hc]
  cases kind <;> simp [Kind.opening]

theorem not_stray_of_isTrivia {lexeme : List Char} {c : Char} (h : IsTrivia lexeme)
    (hc : lexeme.head? = some c) : Opening.of c ≠ .stray := by
  cases h with
  | blank hm =>
    cases hc
    simp only [List.mem_cons, List.not_mem_nil, or_false] at hm
    rcases hm with rfl | rfl | rfl | rfl <;> decide
  | lineComment _ | blockComment _ => cases hc; decide

theorem belongs_cut_slash (text : List Char) : (cut '/' text).1.Belongs (cut '/' text).2 := by
  by_cases hline : text.head? = some '/'
  · obtain ⟨rest, rfl⟩ := List.head?_eq_some_iff.mp hline
    have hbody : ∀ a ∈ rest.takeWhile (· ≠ '\n'), a ≠ '\n' := by
      intro a ha
      have := List.mem_takeWhile_imp ha
      simpa using this
    rw [cut_lineComment]
    exact .lineComment hbody
  · by_cases hblock : text.head? = some '*'
    · obtain ⟨rest, rfl⟩ := List.head?_eq_some_iff.mp hblock
      cases hclose : closeComment [] rest with
      | none =>
        rw [cut_openComment hclose]
        exact .blockComment (closeComment_eq_none_iff.mp hclose)
      | some found =>
        obtain ⟨comment, after⟩ := found
        obtain ⟨body, rfl, -, hbody⟩ := exists_body_of_closeComment hclose
        rw [cut_blockComment hclose]
        exact .blockComment hbody
    · rw [cut_slash hline hblock]
      exact .slash

theorem belongs_cut_quote (text : List Char) : (cut '"' text).1.Belongs (cut '"' text).2 := by
  have hall : ∀ a ∈ text.takeWhile (· ≠ '"'), a ≠ '"' := by
    intro a ha
    have := List.mem_takeWhile_imp ha
    simpa using this
  cases hd : text.dropWhile (· ≠ '"') with
  | nil =>
    have happ := List.takeWhile_append_dropWhile (p := (· ≠ '"')) (l := text)
    rw [hd, List.append_nil] at happ
    rw [happ] at hall
    rw [cut_openString hd]
    exact .string hall
  | cons close after =>
    have hstop := stopsAt_dropWhile (· ≠ '"') text
    obtain rfl : close = '"' := by simpa using hstop close (by rw [hd]; rfl)
    rw [cut_string hd]
    exact .string hall

theorem belongs_cut (c : Char) (text : List Char) :
    (cut c text).1.Belongs (cut c text).2 := by
  cases hopen : Opening.of c with
  | mark kind =>
    rw [cut_mark hopen]
    exact .mark (Opening.announces_of_eq hopen)
  | withEqual alone followed =>
    have hann := Opening.announces_of_eq hopen
    by_cases heq : text.head? = some '='
    · obtain ⟨rest, rfl⟩ := List.head?_eq_some_iff.mp heq
      rw [cut_followed hopen]
      exact .followed hann
    · rw [cut_alone hopen heq]
      exact .alone hann
  | slash =>
    obtain rfl : c = '/' := Opening.announces_of_eq hopen
    exact belongs_cut_slash text
  | blank =>
    have hc : c ∈ [' ', '\r', '\t'] := Opening.announces_of_eq hopen
    rw [cut_blank (Or.inl hopen)]
    exact .blank (List.mem_append_left ['\n'] hc)
  | lineFeed =>
    obtain rfl : c = '\n' := Opening.announces_of_eq hopen
    rw [cut_blank (Or.inr hopen)]
    exact .blank (by decide)
  | quote =>
    obtain rfl : c = '"' := Opening.announces_of_eq hopen
    exact belongs_cut_quote text
  | digit =>
    rw [cut_number hopen]
    exact isToken_number (Opening.announces_of_eq hopen) text
  | wordStart =>
    rw [cut_word hopen]
    exact isToken_ofWord (Opening.announces_of_eq hopen)
      fun a ha => List.mem_takeWhile_imp ha
  | stray =>
    rw [cut_stray hopen]
    exact .stray (fun _ _ h hc => not_stray_of_isToken h hc hopen)
      fun _ h hc => not_stray_of_isTrivia h hc hopen

/-! ## Nothing at the same place is longer -/

section
variable {c : Char} {text lexeme after : List Char}

/-- What is cut is at least as long as a stretch of the same class, so it is that or longer. -/
theorem eq_cut_or_shorter_of_le {piece : Piece} {longest rest : List Char}
    (hcut : cut c text = (⟨piece, longest⟩, rest)) (htext : lexeme ++ after = c :: text)
    (hle : lexeme.length ≤ longest.length) :
    (⟨piece, lexeme⟩ : Segment) = (cut c text).1 ∨
      lexeme.length < (cut c text).1.text.length := by
  have happ := text_cut c text
  rw [hcut] at happ ⊢
  rcases eq_or_length_lt (htext.trans happ.symm) hle with rfl | hlt
  · exact Or.inl rfl
  · exact Or.inr hlt

theorem word_eq_cut_or_shorter {rest : List Char} (hc : isWordStart c = true)
    (hrest : ∀ a ∈ rest, isWordPart a = true) (htext : rest ++ after = text) :
    (⟨.token (.ofWord (c :: rest)), c :: rest⟩ : Segment) = (cut c text).1 ∨
      (c :: rest).length < (cut c text).1.text.length := by
  have hopen : Opening.of c = .wordStart := Opening.of_eq_of_announces hc (by simp)
  have hle := length_le_length_takeWhile hrest after
  have happ := List.takeWhile_append_dropWhile (p := isWordPart) (l := text)
  rw [htext] at hle
  rw [cut_word hopen]
  rcases eq_or_length_lt (htext.trans happ.symm) hle with heq | hlt
  · exact Or.inl (by rw [← heq])
  · exact Or.inr (Nat.succ_lt_succ hlt)

theorem slash_eq_cut_or_shorter (text : List Char) :
    (⟨.token .slash, ['/']⟩ : Segment) = (cut '/' text).1 ∨
      ['/'].length < (cut '/' text).1.text.length := by
  by_cases hline : text.head? = some '/'
  · obtain ⟨rest, rfl⟩ := List.head?_eq_some_iff.mp hline
    exact Or.inr (by rw [cut_lineComment]; simp)
  · by_cases hblock : text.head? = some '*'
    · obtain ⟨rest, rfl⟩ := List.head?_eq_some_iff.mp hblock
      cases hclose : closeComment [] rest with
      | none => exact Or.inr (by rw [cut_openComment hclose]; simp)
      | some found => exact Or.inr (by rw [cut_blockComment hclose]; simp)
    · exact Or.inl (by rw [cut_slash hline hblock])

theorem token_eq_cut_or_shorter {kind : Kind} (h : IsToken kind lexeme)
    (htext : lexeme ++ after = c :: text) :
    (⟨.token kind, lexeme⟩ : Segment) = (cut c text).1 ∨
      lexeme.length < (cut c text).1.text.length := by
  cases h with
  | mark hm =>
    obtain ⟨rfl, rfl⟩ := List.cons.inj htext
    have hopen : Opening.of _ = .mark kind := Opening.of_eq_of_announces hm (by simp)
    exact Or.inl (by rw [cut_mark hopen])
  | alone hm =>
    obtain ⟨rfl, rfl⟩ := List.cons.inj htext
    have hopen : Opening.of _ = .withEqual kind _ := Opening.of_eq_of_announces hm (by simp)
    by_cases heq : after.head? = some '='
    · obtain ⟨rest, rfl⟩ := List.head?_eq_some_iff.mp heq
      exact Or.inr (by simp [cut_followed hopen])
    · exact Or.inl (by simp [cut_alone hopen heq])
  | followed hm =>
    obtain ⟨rfl, rfl⟩ := List.cons.inj htext
    have hopen : Opening.of _ = .withEqual _ kind := Opening.of_eq_of_announces hm (by simp)
    exact Or.inl (by simp [cut_followed hopen])
  | slash =>
    obtain ⟨rfl, rfl⟩ := List.cons.inj htext
    exact slash_eq_cut_or_shorter _
  | @whole digits hne hall =>
    obtain ⟨d, digits, rfl⟩ := List.exists_cons_of_ne_nil hne
    obtain ⟨rfl, rfl⟩ := List.cons.inj htext
    have hopen : Opening.of d = .digit :=
      Opening.of_eq_of_announces (o := .digit) (hall d List.mem_cons_self) (by simp)
    have hle := length_le_restOfNumber (fun a ha => hall a (List.mem_cons_of_mem d ha)) after
    exact eq_cut_or_shorter_of_le (cut_number hopen) htext (Nat.succ_le_succ hle)
  | @fraction whole places hne hall hpne hpall =>
    obtain ⟨d, whole, rfl⟩ := List.exists_cons_of_ne_nil hne
    obtain ⟨rfl, rfl⟩ := List.cons.inj htext
    have hopen : Opening.of d = .digit :=
      Opening.of_eq_of_announces (o := .digit) (hall d List.mem_cons_self) (by simp)
    have hle := length_fraction_le_restOfNumber
      (fun a ha => hall a (List.mem_cons_of_mem d ha)) hpne hpall after
    exact eq_cut_or_shorter_of_le (cut_number hopen) htext (Nat.succ_le_succ hle)
  | keyword k =>
    obtain ⟨a, rest, hword, ha, hrest⟩ := exists_word k
    rw [← ofWord_keyword k, hword]
    rw [hword] at htext
    obtain ⟨rfl, rfl⟩ := List.cons.inj htext
    exact word_eq_cut_or_shorter ha hrest rfl
  | @identifier a rest ha hrest hno =>
    obtain ⟨rfl, rfl⟩ := List.cons.inj htext
    rw [← ofWord_identifier hno]
    exact word_eq_cut_or_shorter ha hrest rfl
  | @string body hbody =>
    obtain ⟨rfl, rfl⟩ := List.cons.inj htext
    have hstop : StopsAt (fun a => decide (a ≠ '"')) ('"' :: after) := by simp [StopsAt]
    have hrun : ∀ a ∈ body, decide (a ≠ '"') = true := by
      intro a ha
      simpa using hbody a ha
    have hdrop := dropWhile_append_of_stop hrun hstop
    have htake := takeWhile_append_of_stop hrun hstop
    left
    show _ = (cut '"' (body ++ ['"'] ++ after)).1
    rw [List.append_assoc, List.singleton_append, cut_string hdrop, htake]

theorem trivia_eq_cut_or_shorter (h : IsTrivia lexeme) (htext : lexeme ++ after = c :: text) :
    (⟨.trivia, lexeme⟩ : Segment) = (cut c text).1 ∨
      lexeme.length < (cut c text).1.text.length := by
  cases h with
  | @blank b hm =>
    obtain ⟨rfl, rfl⟩ := List.cons.inj htext
    have hopen : Opening.of b = .blank ∨ Opening.of b = .lineFeed := by
      simp only [List.mem_cons, List.not_mem_nil, or_false] at hm
      rcases hm with rfl | rfl | rfl | rfl <;> decide
    exact Or.inl (by rw [cut_blank hopen])
  | @lineComment body hbody =>
    obtain ⟨rfl, rfl⟩ := List.cons.inj htext
    have hrun : ∀ a ∈ body, decide (a ≠ '\n') = true := by
      intro a ha
      simpa using hbody a ha
    have hle := length_le_length_takeWhile hrun after
    exact eq_cut_or_shorter_of_le cut_lineComment htext (Nat.succ_le_succ (Nat.succ_le_succ hle))
  | @blockComment body hbody =>
    obtain ⟨rfl, rfl⟩ := List.cons.inj htext
    have hclose := closeComment_of_first hbody [] after
    have hbodyText : '*' :: body ++ closer ++ after = '*' :: (body ++ '*' :: '/' :: after) := by
      simp [closer]
    left
    show _ = (cut '/' ('*' :: body ++ closer ++ after)).1
    rw [hbodyText, cut_blockComment hclose]
    rfl

theorem malformed_eq_cut {fault : Fault} (h : IsMalformed fault lexeme after)
    (htext : lexeme ++ after = c :: text) :
    (⟨.malformed fault, lexeme⟩ : Segment) = (cut c text).1 := by
  cases h with
  | @stray b after hno hnone =>
    obtain ⟨rfl, rfl⟩ := List.cons.inj htext
    have hopen : Opening.of b = .stray := by
      by_contra hopen
      rcases exists_of_not_stray hopen with ⟨kind, lexeme, h, hc⟩ | ⟨lexeme, h, hc⟩
      · exact hno kind lexeme h hc
      · exact hnone lexeme h hc
    rw [cut_stray hopen]
  | @string body hbody =>
    rw [List.append_nil] at htext
    obtain ⟨rfl, rfl⟩ := List.cons.inj htext
    rw [cut_openString]
    rw [List.dropWhile_eq_nil_iff]
    intro a ha
    simpa using hbody a ha
  | @blockComment body hbody =>
    rw [List.append_nil] at htext
    obtain ⟨rfl, rfl⟩ := List.cons.inj htext
    rw [cut_openComment (closeComment_eq_none_iff.mpr hbody)]

/-- **Whatever belongs to a class is cut, or is shorter than what is cut.** -/
theorem eq_cut_or_shorter {s : Segment} (h : s.Belongs after)
    (htext : s.text ++ after = c :: text) :
    s = (cut c text).1 ∨ s.text.length < (cut c text).1.text.length := by
  obtain ⟨piece, lexeme⟩ := s
  cases piece with
  | token kind => exact token_eq_cut_or_shorter h htext
  | trivia => exact trivia_eq_cut_or_shorter h htext
  | malformed fault => exact Or.inl (malformed_eq_cut h htext)

end

/-! ## The one division of a text -/

theorem isLongest_cut (c : Char) (text : List Char) :
    (cut c text).1.IsLongest (cut c text).2 := by
  refine ⟨belongs_cut c text, ?_⟩
  intro t rest htext ht
  rw [text_cut] at htext
  rcases eq_cut_or_shorter ht htext with rfl | hlt
  · exact Nat.le_refl _
  · exact Nat.le_of_lt hlt

/-- The longest segment at a place is the one that is cut. -/
theorem eq_cut_of_isLongest {s : Segment} {after text : List Char} {c : Char}
    (h : s.IsLongest after) (htext : s.text ++ after = c :: text) :
    s = (cut c text).1 ∧ after = (cut c text).2 := by
  have happ := text_cut c text
  have hle := h.2 (cut c text).1 (cut c text).2 (happ.trans htext.symm) (belongs_cut c text)
  rcases eq_cut_or_shorter h.1 htext with hs | hlt
  · refine ⟨hs, ?_⟩
    rw [hs] at htext
    exact List.append_cancel_left (htext.trans happ.symm)
  · omega

theorem division_segments (text : List Char) : Division text (segments text) := by
  induction text using segments_induction with
  | nil =>
    rw [segments_nil]
    exact .nil
  | cons c text ih =>
    rw [segments_cons, ← text_cut c text]
    exact .cons (text_cut_ne_nil c text) (isLongest_cut c text) ih

/-- **A text has one division**, the one that is cut. -/
theorem division_iff {text : List Char} {division : List Segment} :
    Division text division ↔ division = segments text := by
  constructor
  · intro h
    induction h with
    | nil => rw [segments_nil]
    | @cons s after rest hne hlongest _ ih =>
      obtain ⟨c, lexeme, hlexeme⟩ := List.exists_cons_of_ne_nil hne
      have htext : s.text ++ after = c :: (lexeme ++ after) := by rw [hlexeme]; rfl
      obtain ⟨hs, hafter⟩ := eq_cut_of_isLongest hlongest htext
      rw [htext, segments_cons, ← hs, ← hafter, ih]
  · rintro rfl
    exact division_segments text

/-! ## What a scan lists -/

theorem kind_ne_endOfInput {kind : Kind} {lexeme : List Char} (h : IsToken kind lexeme) :
    kind ≠ .endOfInput := by
  rintro rfl
  cases h with
  | mark hm => simp [Opening.marks] at hm
  | alone hm | followed hm => simp [Opening.equalMarks] at hm

theorem belongs_of_mem {text : List Char} {division : List Segment} (h : Division text division)
    {s : Segment} (hs : s ∈ division) : ∃ after, s.Belongs after := by
  induction h with
  | nil => simp at hs
  | cons _ hlongest _ ih =>
    rcases List.mem_cons.mp hs with rfl | hs
    · exact ⟨_, hlongest.1⟩
    · exact ih hs

/-- A token that can be found in a text: its lexeme is one of its kind, and its value is that of the
lexeme. -/
structure Token.Genuine (t : Token) : Prop where
  isToken : IsToken t.kind t.lexeme.toList
  literal : t.literal = literal? t.kind t.lexeme.toList

theorem genuine_of_mem {text : List Char} {t : Token}
    (h : t ∈ (located text).filterMap Located.token?) : t.Genuine := by
  obtain ⟨s, hs, ht⟩ := List.mem_filterMap.mp h
  have hmem : s.segment ∈ segments text := by
    rw [← map_segment_locate 1 (segments text)]
    exact List.mem_map_of_mem hs
  obtain ⟨after, hbelongs⟩ := belongs_of_mem (division_segments text) hmem
  unfold Located.token? at ht
  unfold Segment.Belongs at hbelongs
  split at ht
  · next kind hpiece =>
    rw [hpiece] at hbelongs
    cases ht
    refine ⟨?_, ?_⟩
    · rwa [String.toList_ofList]
    · rw [String.toList_ofList]
  · simp at ht

/-- The tokens of a scan without the last one are the token segments of the text. -/
theorem proper_scan (source : String) :
    (scan source).proper = (located source.toList).filterMap Located.token? := by
  unfold Scan.proper
  rw [tokens_scan, List.filter_append, List.filter_eq_self.mpr]
  · simp [Token.endOfInput]
  · intro t ht
    simpa using kind_ne_endOfInput (genuine_of_mem ht).isToken

theorem genuine_of_mem_proper {source : String} {t : Token} (h : t ∈ (scan source).proper) :
    t.Genuine := by
  rw [proper_scan] at h
  exact genuine_of_mem h

/-- The tokens of a scan are those read from the text, and the end of input. -/
theorem tokens_eq_proper_append (source : String) :
    (scan source).tokens =
      (scan source).proper ++ [.endOfInput (1 + lineFeeds source.toList)] := by
  rw [tokens_scan, proper_scan]

namespace Segment

/-- The kind and the lexeme of a token segment. -/
def token? (s : Segment) : Option (Kind × String) :=
  match s.piece with
  | .token kind => some (kind, String.ofList s.text)
  | _ => none

/-- The fault of a malformed segment. -/
def fault? (s : Segment) : Option Fault :=
  match s.piece with
  | .malformed fault => some fault
  | _ => none

end Segment

namespace Located

theorem map_token? (s : Located) :
    s.token?.map (fun t => (t.kind, t.lexeme)) = s.segment.token? := by
  unfold token? Segment.token?
  cases s.segment.piece <;> rfl

theorem map_diagnostic? (s : Located) : s.diagnostic?.map Diagnostic.fault = s.segment.fault? := by
  unfold diagnostic? Segment.fault?
  cases s.segment.piece <;> rfl

end Located

theorem map_tokens_scan (source : String) :
    (scan source).tokens.map (fun t => (t.kind, t.lexeme)) =
      (segments source.toList).filterMap Segment.token? ++ [(.endOfInput, "")] := by
  rw [tokens_scan, List.map_append, List.map_filterMap]
  simp only [Located.map_token?]
  rw [← map_segment_locate 1 (segments source.toList), List.filterMap_map]
  rfl

theorem map_errors_scan (source : String) :
    (scan source).errors.map Diagnostic.fault =
      (segments source.toList).filterMap Segment.fault? := by
  rw [errors_scan, List.map_filterMap]
  simp only [Located.map_diagnostic?]
  rw [← map_segment_locate 1 (segments source.toList), List.filterMap_map]
  rfl

/-- **A scan lists the one division of its text.** Every text has exactly one division into segments
that are the longest at their places; the tokens are its token segments in order, closed by an end
of input with no text, and the diagnostics are its malformed segments in order, one for each. -/
theorem scan_lists_division (source : String) :
    ∃ division, Division source.toList division ∧
      (∀ other, Division source.toList other → other = division) ∧
      (scan source).tokens.map (fun t => (t.kind, t.lexeme)) =
        division.filterMap Segment.token? ++ [(.endOfInput, "")] ∧
      (scan source).errors.map Diagnostic.fault = division.filterMap Segment.fault? :=
  ⟨segments source.toList, division_segments _, fun _ h => division_iff.mp h,
    map_tokens_scan source, map_errors_scan source⟩

end LoxLexer
