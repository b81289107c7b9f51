import Mathlib.Data.List.Nodup
import LoxLexer.Program
import LoxLexer.Proofs.Segment.Lookahead

/-!
# Reading a listing back

A string is listed as it stands, twice and without escapes, so its text may look like other lines of
the listing. The listing can be read back all the same. A row starts with the name of a kind, which
has no space in it, and a space. The name tells where the lexeme ends: that of a string at its
second quote, any other in front of the next space. Kind and lexeme give the value, and so the text
of the value and where the next row starts.

## Results

* `Kind.name_injective`: every kind has a name of its own.
* `row_eq_of_append`: kind and lexeme of a row, read off a text that starts with it.
* `contents_eq_of_listing_eq`: tokens that are listed the same are the same but for their lines.
* `listing_eq_iff`: what the listings of two scans tell.
-/

namespace LoxLexer

/-! ## The names of the kinds -/

namespace Kind

/-- All kinds of token. -/
def all : List Kind :=
  [leftParen, rightParen, leftBrace, rightBrace, comma, dot, minus, plus, semicolon, slash, star,
   bang, bangEqual, equal, equalEqual, greater, greaterEqual, less, lessEqual, identifier, string,
   number, endOfInput] ++ Keyword.all.map keyword

theorem mem_all (kind : Kind) : kind ∈ all := by
  cases kind with
  | keyword k => exact List.mem_append_right _ (List.mem_map_of_mem (Keyword.mem_all k))
  | _ => decide

theorem name_injective : Function.Injective name := by
  have hnodup : (all.map name).Nodup := by decide +kernel
  exact fun k l => List.inj_on_of_nodup_map hnodup (mem_all k) (mem_all l)

theorem space_not_mem_name (kind : Kind) : ' ' ∉ kind.name.toList := by
  have hall : ∀ k ∈ all, ' ' ∉ k.name.toList := by decide +kernel
  exact hall kind (mem_all kind)

end Kind

/-! ## Where a row is cut -/

/-- What stands in front of the first `c` of a text, and what behind it. -/
theorem eq_of_append_cons_eq {c : Char} {a b rest other : List Char} (ha : c ∉ a) (hb : c ∉ b)
    (h : a ++ c :: rest = b ++ c :: other) : a = b ∧ rest = other := by
  have hrun : ∀ run : List Char, c ∉ run → ∀ d ∈ run, decide (d ≠ c) = true := by
    intro run hc d hd
    refine decide_eq_true ?_
    rintro rfl
    exact hc hd
  have hstop : ∀ text, StopsAt (fun d => decide (d ≠ c)) (c :: text) := by simp [StopsAt]
  have hsame : a = b := by
    rw [← takeWhile_append_of_stop (hrun a ha) (hstop rest), h,
      takeWhile_append_of_stop (hrun b hb) (hstop other)]
  rw [hsame] at h
  exact ⟨hsame, (List.cons.inj (List.append_cancel_left h)).2⟩

/-! ## Rows -/

/-- Kind and lexeme of a row: those of a token, or the end of input with no text. -/
inductive IsRow : Kind → List Char → Prop
  | token {kind : Kind} {lexeme : List Char} : IsToken kind lexeme → IsRow kind lexeme
  | endOfInput : IsRow .endOfInput []

theorem IsRow.space_not_mem {kind : Kind} {lexeme : List Char} (h : IsRow kind lexeme)
    (hkind : kind ≠ .string) : ' ' ∉ lexeme := by
  cases h with
  | token h => exact blank_not_mem_of_isToken (by decide) h hkind
  | endOfInput => exact List.not_mem_nil

/-- **A row is read off the front of a text**, whatever stands behind its lexeme. -/
theorem row_eq_of_append {k l : Kind} {a b rest other : List Char} (ha : IsRow k a)
    (hb : IsRow l b)
    (h : k.name.toList ++ ' ' :: (a ++ ' ' :: rest) = l.name.toList ++ ' ' :: (b ++ ' ' :: other)) :
    k = l ∧ a = b ∧ rest = other := by
  obtain ⟨hname, hback⟩ :=
    eq_of_append_cons_eq (Kind.space_not_mem_name k) (Kind.space_not_mem_name l) h
  obtain rfl : k = l := Kind.name_injective (String.toList_inj.mp hname)
  refine ⟨rfl, ?_⟩
  by_cases hkind : k = .string
  · -- the second quote ends the lexeme, and whatever spaces are in front of it belong to it
    subst hkind
    obtain ⟨body, rfl, hbody⟩ : ∃ body, a = '"' :: (body ++ ['"']) ∧ '"' ∉ body := by
      cases ha with
      | token h => exact exists_body_of_isToken_string h
    obtain ⟨body', rfl, hbody'⟩ : ∃ body, b = '"' :: (body ++ ['"']) ∧ '"' ∉ body := by
      cases hb with
      | token h => exact exists_body_of_isToken_string h
    simp only [List.cons_append, List.append_assoc, List.nil_append, List.cons.injEq,
      true_and] at hback
    obtain ⟨rfl, hrest⟩ := eq_of_append_cons_eq hbody hbody' hback
    exact ⟨rfl, (List.cons.inj hrest).2⟩
  · exact eq_of_append_cons_eq (ha.space_not_mem hkind) (hb.space_not_mem hkind) hback

/-! ## Listings -/

/-- A token that can stand in a listing: kind and lexeme make a row, and the value is that of the
lexeme. -/
structure Token.Listable (t : Token) : Prop where
  isRow : IsRow t.kind t.lexeme.toList
  literal : t.literal = literal? t.kind t.lexeme.toList

theorem listable_of_mem_scan {source : String} {t : Token} (h : t ∈ (scan source).tokens) :
    t.Listable := by
  rw [tokens_eq_proper_append, proper_scan] at h
  rcases List.mem_append.mp h with h | h
  · have hgenuine := genuine_of_mem h
    exact ⟨.token hgenuine.isToken, hgenuine.literal⟩
  · rw [List.mem_singleton.mp h]
    exact ⟨.endOfInput, rfl⟩

theorem toList_listing_cons (t : Token) (tokens : List Token) :
    (listing (t :: tokens)).toList =
      t.kind.name.toList ++ ' ' :: (t.lexeme.toList ++ ' ' ::
        ((t.literal.elim "null" Literal.text).toList ++ '\n' :: (listing tokens).toList)) := by
  unfold listing
  rw [List.map_cons, String.join_cons]
  simp [Token.text]

theorem listing_cons_ne_nil (t : Token) (tokens : List Token) :
    listing (t :: tokens) ≠ listing [] := by
  intro h
  have htext := congrArg String.toList h
  rw [toList_listing_cons] at htext
  simp [listing] at htext

/-- **Tokens that are listed the same** are the same but for their lines. -/
theorem contents_eq_of_listing_eq {a b : List Token} (ha : ∀ t ∈ a, t.Listable)
    (hb : ∀ t ∈ b, t.Listable) (h : listing a = listing b) :
    a.map Token.content = b.map Token.content := by
  induction a generalizing b with
  | nil =>
    cases b with
    | nil => rfl
    | cons u b => exact absurd h.symm (listing_cons_ne_nil u b)
  | cons t a ih =>
    cases b with
    | nil => exact absurd h (listing_cons_ne_nil t a)
    | cons u b =>
      have ht := ha t List.mem_cons_self
      have hu := hb u List.mem_cons_self
      have htext := congrArg String.toList h
      rw [toList_listing_cons, toList_listing_cons] at htext
      obtain ⟨hkind, hlexeme, hback⟩ := row_eq_of_append ht.isRow hu.isRow htext
      have hliteral : t.literal = u.literal := by rw [ht.literal, hu.literal, hkind, hlexeme]
      rw [hliteral] at hback
      have hrest : listing a = listing b := by
        have htail := List.append_cancel_left hback
        exact String.toList_inj.mp (List.cons.inj htail).2
      have hcontent : t.content = u.content := by
        unfold Token.content
        rw [hkind, String.toList_inj.mp hlexeme, hliteral]
      rw [List.map_cons, List.map_cons, hcontent,
        ih (fun t ht => ha t (List.mem_cons_of_mem _ ht))
          (fun u hu => hb u (List.mem_cons_of_mem _ hu)) hrest]

theorem listing_eq_of_contents_eq {a b : List Token}
    (h : a.map Token.content = b.map Token.content) : listing a = listing b := by
  have htext : ∀ t : Token, t.text ++ "\n" = t.content.1.name ++ " " ++ t.content.2.1 ++ " " ++
      t.content.2.2.elim "null" Literal.text ++ "\n" := fun _ => rfl
  unfold listing
  simp only [htext]
  have hmap := congrArg (List.map fun content : Kind × String × Option Literal =>
    content.1.name ++ " " ++ content.2.1 ++ " " ++
      content.2.2.elim "null" Literal.text ++ "\n") h
  rw [List.map_map, List.map_map] at hmap
  exact congrArg String.join hmap

/-- **A listing can be read back.** The listings of two scans are the same text if and only if the
scans found the same kinds, lexemes and values one by one, whatever the strings among them look
like. -/
theorem listing_eq_iff (s₁ s₂ : String) :
    listing (scan s₁).tokens = listing (scan s₂).tokens ↔
      (scan s₁).tokens.map Token.content = (scan s₂).tokens.map Token.content :=
  ⟨contents_eq_of_listing_eq (fun _ => listable_of_mem_scan) fun _ => listable_of_mem_scan,
    listing_eq_of_contents_eq⟩

/-- A string that is listed as if the listing ended twice before it does. -/
example : listing (scan "\"\nEOF  null\n\"").tokens =
    "STRING \"\nEOF  null\n\" \nEOF  null\n\nEOF  null\n" := by decide +kernel

end LoxLexer
