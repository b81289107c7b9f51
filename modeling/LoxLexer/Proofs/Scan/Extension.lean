import Mathlib.Algebra.BigOperators.Group.List.Basic
import LoxLexer.Proofs.Scan.Append

/-!
# Texts that go on

What is appended to a text reaches back into it by one segment, and by two where the text ends in a
point behind a number: a digit there makes the two one. Stray characters stay what they are, so all
that is found wrong stays, apart from what the end of the text cut off.

## Results

* `segments_append_of_stray`: a stray character stays, and so do the segments in front of it.
* `scan_extends`: tokens and diagnostics that stay.
-/

namespace LoxLexer

/-! ## Segments that stay -/

section
variable {text : List Char} {front back : List Segment}

/-- A malformed segment that is closed is a stray character, and no point. -/
theorem exists_stray {s : Segment} {after : List Char} {fault : Fault} (h : s.Belongs after)
    (hpiece : s.piece = .malformed fault) (hclosed : s.isOpen = false) :
    ∃ c, s = ⟨.malformed (.unexpectedCharacter c), [c]⟩ ∧ c ≠ '.' := by
  obtain ⟨piece, lexeme⟩ := s
  obtain rfl : piece = .malformed fault := hpiece
  have hmalformed : IsMalformed fault lexeme after := h
  cases hmalformed with
  | @stray c _ hno hnone =>
    refine ⟨c, rfl, ?_⟩
    rintro rfl
    exact hno .dot ['.'] (.mark (by decide)) rfl
  | string | blockComment => cases hclosed

/-- **A stray character stays**, and so does all in front of it. -/
theorem segments_append_of_stray {s : Segment} {fault : Fault}
    (hsplit : segments text = front ++ s :: back) (hpiece : s.piece = .malformed fault)
    (hclosed : s.isOpen = false) (rest : List Char) :
    segments (text ++ rest) = front ++ s :: segments (back.flatMap Segment.text ++ rest) := by
  have hbelongs := (belongs_of_split hsplit).1
  obtain ⟨c, rfl, hc⟩ := exists_stray hbelongs hpiece hclosed
  have hcut := segments_text_append (List.cons_ne_nil c [])
    (belongs_of_closed hclosed hbelongs (back.flatMap Segment.text ++ rest)) rfl
  rw [segments_append_of_split hsplit (List.cons_ne_nil _ _) (by simp [hc]), List.flatMap_cons,
    List.append_assoc, hcut]

end

/-! ## Located segments in two parts -/

theorem length_locate (line : Nat) (segments : List Segment) :
    (locate line segments).length = segments.length := by
  rw [← List.length_map Located.segment, map_segment_locate]

/-- Where numbered segments are in two parts, so are the segments. -/
theorem exists_split_of_locate {line : Nat} {segments : List Segment} {before after : List Located}
    (h : locate line segments = before ++ after) :
    segments = before.map Located.segment ++ after.map Located.segment ∧
      locate line (before.map Located.segment) = before := by
  have hsegments : segments = before.map Located.segment ++ after.map Located.segment := by
    rw [← List.map_append, ← h, map_segment_locate]
  refine ⟨hsegments, ?_⟩
  have hparts := (locate_append line _ _).symm.trans ((congrArg _ hsegments.symm).trans h)
  exact (List.append_inj hparts (by rw [length_locate, List.length_map])).1

theorem prefix_locate (line : Nat) {front segments : List Segment} (h : front <+: segments) :
    locate line front <+: locate line segments := by
  obtain ⟨back, rfl⟩ := h
  rw [locate_append]
  exact List.prefix_append _ _

theorem piece_of_diagnostic? {s : Located} {d : Diagnostic} (h : s.diagnostic? = some d) :
    s.segment.piece = .malformed d.fault := by
  unfold Located.diagnostic? at h
  split at h
  · next fault hpiece =>
    cases h
    exact hpiece
  · cases h

/-! ## Scans of texts that go on -/

/-- The diagnostics that stand whatever follows the text: all of them, without a last one about what
the end of the text cut off. -/
def Scan.settledErrors (s : Scan) : List Diagnostic :=
  if s.errors.getLast?.any fun d => d.fault.isUnterminated then s.errors.dropLast else s.errors

/-- The last settled diagnostic is about a stray character, or another diagnostic follows it. -/
theorem settledErrors_concat {s : Scan} {before : List Diagnostic} {d : Diagnostic}
    (h : s.settledErrors = before ++ [d]) :
    ∃ after, s.errors = before ++ d :: after ∧ (d.fault.isUnterminated = false ∨ after ≠ []) := by
  unfold Scan.settledErrors at h
  split at h
  · next hopen =>
    obtain ⟨e, he, -⟩ := (Option.any_eq_true _ _).mp hopen
    have herrors := List.dropLast_append_getLast? e he
    rw [h, List.append_assoc] at herrors
    exact ⟨[e], herrors.symm, Or.inr (List.cons_ne_nil e [])⟩
  · next hclosed =>
    rw [h, List.getLast?_concat] at hclosed
    exact ⟨[], h, Or.inl (by simpa using hclosed)⟩

/-- A list without its last two elements is empty, or there are two behind it. -/
theorem dropLast_dropLast_cases {α : Type} (l : List α) :
    l.dropLast.dropLast = [] ∨ ∃ a b, l = l.dropLast.dropLast ++ [a, b] := by
  rcases l.eq_nil_or_concat' with rfl | ⟨l, b, rfl⟩
  · exact Or.inl rfl
  · rw [List.dropLast_concat]
    rcases l.eq_nil_or_concat' with rfl | ⟨l, a, rfl⟩
    · exact Or.inl rfl
    · rw [List.dropLast_concat, List.append_assoc]
      exact Or.inr ⟨a, b, rfl⟩

theorem length_le_length_text {text : List Char} {division : List Segment}
    (h : division ⊆ segments text) : division.length ≤ (division.flatMap Segment.text).length := by
  rw [List.length_flatMap, ← List.length_map fun s : Segment => s.text.length]
  refine List.length_le_sum_of_one_le _ fun n hn => ?_
  obtain ⟨s, hs, rfl⟩ := List.mem_map.mp hn
  exact List.length_pos_iff.mpr (text_ne_nil_of_mem_segments (h hs))

/-- Behind all tokens but the last two come two segments, so more than a single point. -/
theorem prefix_proper_append (a b : String) :
    (scan a).proper.dropLast.dropLast <+: (scan (a ++ b)).proper := by
  rcases dropLast_dropLast_cases (scan a).proper with hnil | ⟨t, u, hproper⟩
  · rw [hnil]
    exact List.nil_prefix
  · rw [proper_scan] at hproper
    obtain ⟨before, after, hlocated, hbefore, hafter⟩ := List.filterMap_eq_append_iff.mp hproper
    obtain ⟨hsplit, hlines⟩ := exists_split_of_locate hlocated
    have htwo : 2 ≤ (after.map Located.segment).length := by
      have hlength := List.length_filterMap_le Located.token? after
      rwa [hafter, ← List.length_map Located.segment] at hlength
    have hsubset : after.map Located.segment ⊆ segments a.toList := by
      rw [hsplit]
      exact List.subset_append_right _ _
    have htext := htwo.trans (length_le_length_text hsubset)
    have hne : after.map Located.segment ≠ [] := List.ne_nil_of_length_pos (by omega)
    have hpoint : (after.map Located.segment).flatMap Segment.text ≠ ['.'] := by
      intro hdot
      rw [hdot] at htext
      exact absurd htext (by decide)
    have hsegments := segments_append_of_split hsplit hne hpoint b.toList
    have hprefix := prefix_locate 1 (hsegments ▸ List.prefix_append _ _)
    rw [hlines] at hprefix
    rw [proper_scan, proper_scan, String.toList_append, ← hbefore]
    exact hprefix.filterMap _

/-- Where an element was found in a list, and what was found on either side. -/
theorem exists_split_of_filterMap {α β : Type} {f : α → Option β} {l : List α}
    {before after : List β} {b : β} (h : l.filterMap f = before ++ b :: after) :
    ∃ front a back, l = front ++ [a] ++ back ∧ (front ++ [a]).filterMap f = before ++ [b] ∧
      f a = some b ∧ back.filterMap f = after := by
  obtain ⟨front, rest, rfl, hfront, hrest⟩ := List.filterMap_eq_append_iff.mp h
  obtain ⟨between, a, back, rfl, hbetween, ha, hback⟩ := List.filterMap_eq_cons_iff.mp hrest
  have hnone := List.filterMap_eq_nil_iff.mpr hbetween
  refine ⟨front ++ between, a, back, by simp, ?_, ha, hback⟩
  rw [List.filterMap_append, List.filterMap_append, hfront, hnone, List.append_nil,
    List.filterMap_cons_some ha, List.filterMap_nil]

/-- **A diagnostic with another behind it is about a stray character**, since what is open comes
last. -/
theorem isUnterminated_of_behind {source : String} {before after : List Diagnostic} {d : Diagnostic}
    (h : (scan source).errors = before ++ d :: after) (hne : after ≠ []) :
    d.fault.isUnterminated = false := by
  rw [errors_scan] at h
  obtain ⟨front, x, back, hlocated, -, hx, hback⟩ := exists_split_of_filterMap h
  have hsplit := (exists_split_of_locate hlocated).1
  rw [List.map_append, List.map_singleton, List.append_assoc, List.singleton_append] at hsplit
  have hclosed : x.segment.isOpen = false := by
    refine isOpen_of_split hsplit fun hnil => hne ?_
    rw [← hback, List.map_eq_nil_iff.mp hnil, List.filterMap_nil]
  simpa [Segment.isOpen, Segment.fault?, piece_of_diagnostic? hx] using hclosed

theorem prefix_errors_append (a b : String) :
    (scan a).settledErrors <+: (scan (a ++ b)).errors := by
  rcases (scan a).settledErrors.eq_nil_or_concat' with hnil | ⟨faults, d, hsettled⟩
  · rw [hnil]
    exact List.nil_prefix
  · obtain ⟨more, herrors, hlast⟩ := settledErrors_concat hsettled
    have hfault : d.fault.isUnterminated = false := hlast.elim id (isUnterminated_of_behind herrors)
    rw [errors_scan] at herrors
    obtain ⟨before, x, after, hlocated, hbefore, hx, hafter⟩ := exists_split_of_filterMap herrors
    obtain ⟨hsplit, hlines⟩ := exists_split_of_locate hlocated
    rw [List.map_append, List.map_singleton, List.append_assoc, List.singleton_append] at hsplit
    have hpiece := piece_of_diagnostic? hx
    have hclosed : x.segment.isOpen = false := by
      simpa [Segment.isOpen, Segment.fault?, hpiece] using hfault
    have hfront : (before ++ [x]).map Located.segment <+: segments (a.toList ++ b.toList) := by
      rw [segments_append_of_stray hsplit hpiece hclosed b.toList, List.map_append]
      exact (List.prefix_append_right_inj _).mpr (List.prefix_append [x.segment] _)
    have hprefix := prefix_locate 1 hfront
    rw [hlines] at hprefix
    rw [errors_scan, String.toList_append, hsettled, ← hbefore]
    exact hprefix.filterMap _

/-- **What is found in a text stays when the text goes on**: all tokens but the last two, and all
diagnostics but a last one about what the end of the text cut off. All tokens but the last one need
not stay. -/
theorem scan_extends :
    (∀ a b : String,
      (scan a).proper.dropLast.dropLast <+: (scan (a ++ b)).tokens ∧
        (scan a).settledErrors <+: (scan (a ++ b)).errors) ∧
      ¬ ∀ a b : String, (scan a).proper.dropLast <+: (scan (a ++ b)).tokens := by
  refine ⟨fun a b => ⟨?_, prefix_errors_append a b⟩, fun h => ?_⟩
  · rw [tokens_eq_proper_append]
    exact (prefix_proper_append a b).trans (List.prefix_append _ _)
  · -- a digit behind the point makes it part of the number
    have hlexemes := (h "1." "5").map Token.lexeme
    have hshort : (scan "1.").proper.dropLast.map Token.lexeme = ["1"] := by decide +kernel
    have hlong : (scan ("1." ++ "5")).tokens.map Token.lexeme = ["1.5", ""] := by decide +kernel
    rw [hshort, hlong] at hlexemes
    exact absurd hlexemes (by decide)

end LoxLexer
