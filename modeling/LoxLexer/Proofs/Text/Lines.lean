import Mathlib.Algebra.GroupWithZero.Nat
import Mathlib.Data.String.Basic
import LoxLexer.Text.Lines

/-!
# Lines cut and joined

The lines of a text are cut from its bytes and decoded one by one. That is the same as cutting the
characters: no character but the line feed has its byte, and none but the carriage return has that
one. Joining the lines gives the text back, but for a line feed at its end, which starts no line,
and for carriage returns in front of line feeds.

## Results

* `decodeLines_toUTF8`: the lines of a text's bytes are the lines of its characters.
* `decodeLines_append_lineFeed`: a stream may be read up to a line feed at a time.
* `eq_joinLines_textLines`: a text is its lines, joined.
* `joinLines_append`, `joinLines_map_joinLines`: lines joined in parts.
-/

namespace LoxLexer

/-- The lines of a text, cut from its characters. -/
def textLines (text : String) : List String :=
  (splitLines '\n' '\r' text.toList).map String.ofList

/-! ## Bytes and characters -/

/-- The bytes of characters. -/
def utf8Bytes (text : List Char) : List UInt8 := text.flatMap String.utf8EncodeChar

/-- A byte below `0x80` is a character by itself and in no other. -/
theorem eq_of_mem_utf8EncodeChar {c : Char} {b : UInt8} (hb : b.toNat < 128)
    (h : b ∈ String.utf8EncodeChar c) : c.toNat = b.toNat := by
  -- the bytes of the other characters have their highest bit set
  have hlead : ∀ n base : Nat,
      b = UInt8.ofNat (n + base) → n + base < 256 → 128 ≤ base → False := by
    rintro n base rfl hsmall hbase
    rw [UInt8.toNat_ofNat', Nat.mod_eq_of_lt (by simpa using hsmall)] at hb
    omega
  unfold String.utf8EncodeChar at h
  dsimp only at h
  split at h
  · next hsmall =>
    rw [List.mem_singleton] at h
    rw [h, UInt8.toNat_ofNat', Nat.mod_eq_of_lt (by omega)]
    rfl
  · split at h
    · simp only [List.mem_cons, List.not_mem_nil, or_false] at h
      rcases h with h | h <;> exact (hlead _ _ h (by omega) (by omega)).elim
    · split at h
      · simp only [List.mem_cons, List.not_mem_nil, or_false] at h
        rcases h with h | h | h <;> exact (hlead _ _ h (by omega) (by omega)).elim
      · simp only [List.mem_cons, List.not_mem_nil, or_false] at h
        rcases h with h | h | h | h <;> exact (hlead _ _ h (by omega) (by omega)).elim

theorem not_mem_utf8EncodeChar {c d : Char} {b : UInt8} (hb : b.toNat < 128)
    (hd : d.toNat = b.toNat) (hne : c ≠ d) : b ∉ String.utf8EncodeChar c := by
  intro h
  have hsame := (eq_of_mem_utf8EncodeChar hb h).trans hd.symm
  exact hne (Char.toNat_inj.mp hsame)

theorem splitOn_append_of_not_mem {α : Type} [DecidableEq α] {a : α} {front : List α}
    (h : a ∉ front) (text : List α) :
    (front ++ text).splitOn a = (text.splitOn a).modifyHead (front ++ ·) := by
  induction front with
  | nil =>
    cases hsplit : text.splitOn a <;> simp [hsplit]
  | cons b front ih =>
    obtain ⟨hb, hfront⟩ : a ≠ b ∧ a ∉ front := by simpa using h
    rw [List.cons_append, List.splitOn_cons_eq_if_modifyHead, if_neg (by simpa using hb.symm),
      ih hfront, List.modifyHead_modifyHead]
    rfl

/-- Line feeds are the same among bytes and among characters. -/
theorem splitOn_utf8Bytes (text : List Char) :
    (utf8Bytes text).splitOn 0x0A = (text.splitOn '\n').map utf8Bytes := by
  induction text with
  | nil => rfl
  | cons c text ih =>
    have hcons : utf8Bytes (c :: text) = String.utf8EncodeChar c ++ utf8Bytes text :=
      List.flatMap_cons
    by_cases hc : c = '\n'
    · subst hc
      have hlf : String.utf8EncodeChar '\n' = [0x0A] := rfl
      rw [hcons, hlf, List.singleton_append, List.splitOn_cons_eq_if_modifyHead, if_pos (by rfl),
        ih, List.splitOn_cons_eq_if_modifyHead, if_pos (by rfl)]
      rfl
    · have hnot : (0x0A : UInt8) ∉ String.utf8EncodeChar c :=
        not_mem_utf8EncodeChar (by decide) (by rfl) hc
      rw [hcons, splitOn_append_of_not_mem hnot, ih, List.splitOn_cons_eq_if_modifyHead,
        if_neg (by simpa using hc)]
      cases text.splitOn '\n' with
      | nil => rfl
      | cons piece pieces => rfl

theorem dropReturn_utf8Bytes (line : List Char) :
    dropReturn 0x0D (utf8Bytes line) = utf8Bytes (dropReturn '\r' line) := by
  obtain rfl | ⟨line, c, rfl⟩ := line.eq_nil_or_concat'
  · rfl
  · have hconcat : utf8Bytes (line ++ [c]) = utf8Bytes line ++ String.utf8EncodeChar c := by
      simp [utf8Bytes]
    unfold dropReturn
    by_cases hc : c = '\r'
    · subst hc
      have hcr : String.utf8EncodeChar '\r' = [0x0D] := rfl
      rw [hconcat, hcr]
      simp
    · have hnot : (utf8Bytes (line ++ [c])).getLast? ≠ some 0x0D := by
        rw [hconcat, List.getLast?_append_of_ne_nil _ String.utf8EncodeChar_ne_nil]
        intro h
        exact not_mem_utf8EncodeChar (by decide) (by rfl) hc (List.mem_of_getLast? h)
      rw [if_neg hnot, if_neg (by simpa using hc)]

theorem splitLines_utf8Bytes (text : List Char) :
    splitLines 0x0A 0x0D (utf8Bytes text) = (splitLines '\n' '\r' text).map utf8Bytes := by
  have hempty : ∀ line, (utf8Bytes line).isEmpty = line.isEmpty := by
    intro line
    cases line with
    | nil => rfl
    | cons c line => simp [utf8Bytes, String.utf8EncodeChar_ne_nil]
  unfold splitLines
  simp only [splitOn_utf8Bytes, ← List.map_dropLast, List.map_append, List.map_map,
    List.getLast?_map, Option.toList_map, List.filter_map]
  congr 2
  · funext line
    exact dropReturn_utf8Bytes line
  · congr 1
    funext line
    simp [hempty]

theorem toUTF8_ofList (text : List Char) :
    (String.ofList text).toUTF8 = ⟨(utf8Bytes text).toArray⟩ := by
  rw [String.toUTF8_eq_toByteArray, String.toByteArray_ofList, List.utf8Encode]
  exact ByteArray.ext List.data_toByteArray

theorem fromUTF8?_toUTF8 (text : String) : String.fromUTF8? text.toUTF8 = some text := by
  have hvalid : text.toByteArray.IsValidUTF8 := text.isValidUTF8
  unfold String.fromUTF8?
  rw [String.toUTF8_eq_toByteArray, dif_pos hvalid]
  rfl

theorem fromUTF8?_of_no_text {bytes : ByteArray} (h : ∀ text : String, text.toUTF8 ≠ bytes) :
    String.fromUTF8? bytes = none := by
  have hinvalid : ¬ bytes.IsValidUTF8 := fun hvalid => h (String.ofByteArray bytes hvalid) rfl
  unfold String.fromUTF8?
  rw [dif_neg hinvalid]

theorem decode_toUTF8 (text : String) : decode text.toUTF8 = .ok text := by
  unfold decode
  rw [fromUTF8?_toUTF8]

theorem decode_of_no_text {bytes : ByteArray} (h : ∀ text : String, text.toUTF8 ≠ bytes) :
    decode bytes = .error .invalidUtf8 := by
  unfold decode
  rw [fromUTF8?_of_no_text h]

/-- **The lines of a text's bytes** are the lines of its characters, and all of them decode. -/
theorem decodeLines_toUTF8 (text : String) :
    decodeLines text.toUTF8 = (textLines text).map .ok := by
  have hbytes : text.toUTF8.data.toList = utf8Bytes text.toList := by
    conv_lhs => rw [← String.ofList_toList (s := text), toUTF8_ofList]
  unfold decodeLines textLines
  rw [hbytes, splitLines_utf8Bytes, List.map_map, List.map_map]
  congr 1
  funext line
  exact (congrArg decode (toUTF8_ofList line).symm).trans (decode_toUTF8 _)

/-! ## A stream in parts -/

theorem splitLines_append_lineFeed {α : Type} [DecidableEq α] (lf cr : α) (front rest : List α) :
    splitLines lf cr (front ++ lf :: rest) =
      splitLines lf cr (front ++ [lf]) ++ splitLines lf cr rest := by
  have hrest : rest.splitOn lf ≠ [] := List.splitOn_ne_nil lf rest
  unfold splitLines
  simp only [List.splitOn_append_cons_self, List.splitOn_nil, List.dropLast_concat,
    List.dropLast_append_of_ne_nil hrest, List.getLast?_append_of_ne_nil _ hrest,
    List.getLast?_concat, List.map_append, List.append_assoc]
  rfl

/-- **A stream may be read up to a line feed at a time**: no line reaches over one. -/
theorem decodeLines_append_lineFeed (front rest : ByteArray) :
    decodeLines (front.push 0x0A ++ rest) = decodeLines (front.push 0x0A) ++ decodeLines rest := by
  unfold decodeLines
  rw [← List.map_append]
  congr 1
  simpa using splitLines_append_lineFeed 0x0A 0x0D front.data.toList rest.data.toList

/-! ## Joined lines -/

theorem joinLines_append {before after : List String} (hb : before ≠ []) (ha : after ≠ []) :
    joinLines (before ++ after) = joinLines before ++ "\n" ++ joinLines after :=
  String.intercalate_append_of_ne_nil hb ha

theorem joinLines_cons {line : String} {lines : List String} (h : lines ≠ []) :
    joinLines (line :: lines) = line ++ "\n" ++ joinLines lines :=
  String.intercalate_cons_of_ne_nil h

/-- Lines joined are no text at all only if there is none, or one that is empty. -/
theorem joinLines_eq_empty_iff {lines : List String} :
    joinLines lines = "" ↔ lines = [] ∨ lines = [""] := by
  match lines with
  | [] => simp [joinLines]
  | [line] => simp [joinLines]
  | line :: next :: rest =>
    rw [joinLines_cons (List.cons_ne_nil _ _)]
    simp

/-- Joining what was joined in groups is joining all. -/
theorem joinLines_map_joinLines {groups : List (List String)} (h : ∀ g ∈ groups, g ≠ []) :
    joinLines (groups.map joinLines) = joinLines groups.flatten := by
  induction groups with
  | nil => rfl
  | cons g groups ih =>
    have hrest := ih fun g hg => h g (List.mem_cons_of_mem _ hg)
    by_cases hgroups : groups = []
    · subst hgroups
      simp [joinLines]
    · have hflatten : groups.flatten ≠ [] := by
        obtain ⟨next, rest, rfl⟩ := List.exists_cons_of_ne_nil hgroups
        intro hnil
        exact h next (by simp) (List.append_eq_nil_iff.mp hnil).1
      rw [List.map_cons, joinLines_cons (by simpa using hgroups), List.flatten_cons,
        joinLines_append (h g List.mem_cons_self) hflatten, hrest]

/-- Joining adds nothing but line feeds. -/
theorem count_joinLines_le {c : Char} (hc : c ≠ '\n') (lines : List String) :
    (joinLines lines).toList.count c ≤ (lines.map String.length).sum := by
  induction lines with
  | nil => simp [joinLines]
  | cons line lines ih =>
    have hline : line.toList.count c ≤ line.length := by
      rw [← String.length_toList]
      exact List.count_le_length
    rw [List.map_cons, List.sum_cons]
    by_cases hlines : lines = []
    · subst hlines
      simpa [joinLines] using hline
    · have hlf : "\n".toList.count c = 0 := List.count_eq_zero_of_not_mem (by simpa using hc)
      rw [joinLines_cons hlines, String.toList_append, String.toList_append, List.count_append,
        List.count_append, hlf]
      omega

/-! ## Cut and joined again -/

theorem joinLines_splitOn (text : String) :
    joinLines ((text.toList.splitOn '\n').map String.ofList) = text := by
  rw [← String.toList_inj]
  unfold joinLines
  rw [String.toList_intercalate, List.map_map]
  have hid : String.toList ∘ String.ofList = id := funext fun _ => String.toList_ofList
  rw [hid, List.map_id]
  exact List.intercalate_splitOn _

/-- A line that is not the last has a line feed behind it. -/
theorem line_infix_joinLines {line : String} {before : List String} (h : line ∈ before)
    (last : String) : line.toList ++ ['\n'] <:+: (joinLines (before ++ [last])).toList := by
  induction before with
  | nil => simp at h
  | cons first before ih =>
    have htext : (joinLines (first :: before ++ [last])).toList =
        (first.toList ++ ['\n']) ++ (joinLines (before ++ [last])).toList := by
      rw [List.cons_append, joinLines_cons (by simp)]
      simp
    rw [htext]
    rcases List.mem_cons.mp h with rfl | h
    · exact (List.prefix_append _ _).isInfix
    · exact (ih h).trans (List.suffix_append _ _).isInfix

/-- **A text is its lines, joined**, or that and a line feed at the end, if no carriage return
stands in front of a line feed. -/
theorem eq_joinLines_textLines {text : String} (h : ¬ ['\r', '\n'] <:+: text.toList) :
    text = joinLines (textLines text) ∨ text = joinLines (textLines text) ++ "\n" := by
  have hjoin := joinLines_splitOn text
  obtain hnil | ⟨before, last, hpieces⟩ := (text.toList.splitOn '\n').eq_nil_or_concat'
  · exact absurd hnil (List.splitOn_ne_nil _ _)
  rw [hpieces, List.map_append, List.map_singleton] at hjoin
  have hreturn : before.map (dropReturn '\r') = before := by
    refine (List.map_congr_left ?_).trans (List.map_id before)
    intro line hline
    refine if_neg ?_
    intro hcr
    apply h
    obtain ⟨front, rfl⟩ := List.getLast?_eq_some_iff.mp hcr
    have hinfix := line_infix_joinLines (List.mem_map_of_mem (f := String.ofList) hline)
      (String.ofList last)
    rw [hjoin, String.toList_ofList, List.append_assoc] at hinfix
    exact (List.suffix_append front _).isInfix.trans hinfix
  have hlines : textLines text =
      before.map String.ofList ++ if last = [] then [] else [String.ofList last] := by
    unfold textLines splitLines
    rw [hpieces]
    dsimp only
    rw [List.dropLast_concat, hreturn, List.getLast?_concat, List.map_append]
    cases last <;> rfl
  rw [hlines]
  by_cases hlast : last = []
  · rw [if_pos hlast, List.append_nil]
    subst hlast
    by_cases hbefore : before = []
    · subst hbefore
      exact Or.inl hjoin.symm
    · right
      conv_lhs => rw [← hjoin, joinLines_append (by simpa using hbefore) (List.cons_ne_nil _ _)]
      exact String.append_empty
  · rw [if_neg hlast]
    exact Or.inl hjoin.symm

end LoxLexer
