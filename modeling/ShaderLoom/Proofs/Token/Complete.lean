/-
  ShaderLoom.Proofs.Token.Complete — the tokens of a text are the whole text, and each is a whole token.

  The tokens cover a text without gaps (`Partition`). What makes a lexeme end is either in it or the one thing
  behind it that it was stopped by: a name and a run of blanks go on as far as they can, a line comment up to
  the line end, a block comment to the first `*/` (`Stands.name_end`, `Stands.of_block`), and a slash before a
  star stands alone only where no `*/` follows (`Stands.of_slash`). Since nothing behind a lexeme could only end
  it sooner, it is read from its own text again (`Stands.alone`). `tokenize_complete` says this of every token.
-/

import Mathlib.Data.List.Chain
import ShaderLoom.Proofs.Lexeme.Gap
import ShaderLoom.Proofs.Lexeme.Parted
import ShaderLoom.Proofs.Token.Layout

namespace ShaderLoom

namespace Lexeme

open ShaderLoom.Text

/-! ## The end of a comment -/

/-- The two characters that end a block comment. -/
def blockMark : List Char := ['*', '/']

theorem blockMark_prefix_cons {c : Char} {cs : List Char} :
    blockMark <+: c :: cs ↔ c = '*' ∧ startsWith (· == '/') cs = true := by
  rw [blockMark, List.cons_prefix_cons, @eq_comm _ '*' c]
  refine and_congr_right fun _ => ?_
  cases cs with
  | nil => simp
  | cons d cs => simp [List.cons_prefix_cons, @eq_comm _ '/' d]

theorem closes_iff_mark {cs : List Char} : Closes cs ↔ blockMark <:+: cs := by
  induction cs with
  | nil => simp [blockMark]
  | cons c cs ih => rw [closes_cons, List.infix_cons_iff, blockMark_prefix_cons, ih]

/-- A text that is read up to its end as the end of a comment has no other end of a comment in it. -/
theorem exists_inner {body : List Char} (h : blockEnd? body = some body) :
    ∃ inner, body = inner ++ blockMark ∧ ¬ Closes (inner ++ ['*']) := by
  induction body using blockEnd?.induct with
  | case1 rest =>
    obtain rfl : [] = rest := by simpa [blockEnd?] using h
    exact ⟨[], rfl, not_closes.mpr rfl⟩
  | case2 c rest hne ih =>
    rw [blockEnd?.eq_2 _ _ hne] at h
    obtain ⟨b, hb, hbody⟩ := Option.map_eq_some_iff.mp h
    obtain ⟨-, rfl⟩ := List.cons.inj hbody
    obtain ⟨inner, rfl, hinner⟩ := ih hb
    refine ⟨c :: inner, rfl, fun hcloses => ?_⟩
    rcases closes_cons.mp hcloses with ⟨hc, hslash⟩ | hcloses
    · -- a slash behind the star would have ended the comment there
      cases inner with
      | nil => cases hslash
      | cons d inner => exact hne (inner ++ blockMark) hc (by rw [← eq_of_beq hslash]; rfl)
    · exact hinner hcloses
  | case3 => cases h

/-! ## Where a lexeme ends -/

variable {x : Lexeme} {v : List Char}

theorem Stands.name_end (h : Stands x v) (hx : x.1 = .name) : startsWith isWord v = false := by
  have hname := h.of_name hx
  obtain ⟨c, t, ht, hf⟩ := h
  rw [ht] at hname
  rw [first_of_nameStart hname.1] at hf
  subst hf
  exact (takeWhile_append_eq_left.mp (List.cons.inj ht).2).2

/-- A comment goes up to a line end or to its first end mark. -/
theorem Stands.comment_end (h : Stands x v) (hx : x.1 = .comment) :
    (∃ a, x.2 = '/' :: '/' :: a ∧ '\n' ∉ a ∧ endsLine v) ∨
      ∃ inner, x.2 = '/' :: '*' :: (inner ++ blockMark) ∧ ¬ blockMark <:+: inner ++ ['*'] := by
  rcases h.of_comment hx with ⟨a, ha, hline, hend⟩ | ⟨body, hbody, hself⟩
  · exact Or.inl ⟨a, ha, fun hmem => hline _ hmem rfl, hend⟩
  · obtain ⟨inner, rfl, hinner⟩ := exists_inner hself
    exact Or.inr ⟨inner, hbody, fun hinfix => hinner (closes_iff_mark.mpr hinfix)⟩

/-- A slash that stands alone before a star opens a comment that nothing ends. -/
theorem Stands.slash_end {r : List Char} (h : Stands (.mark, ['/']) ('*' :: r)) : ¬ blockMark <:+: r := by
  obtain ⟨c, t, ht, hf⟩ := h
  obtain ⟨rfl, rfl⟩ := List.cons.inj ht
  rw [List.nil_append, first_slash] at hf
  intro hinfix
  obtain ⟨body, hbody⟩ := Option.ne_none_iff_exists'.mp (closes_iff_mark.mpr hinfix)
  simp [comment?, hbody] at hf

/-- A lexeme is the only one of its text. -/
theorem Stands.alone (h : Stands x v) : lexemes x.2 = [x] :=
  lexemes_of_append (v := v) (by rw [h.lexemes_append, List.singleton_append]) (by simp)

end Lexeme

namespace Token

open ShaderLoom.Text
open ShaderLoom.Lexeme hiding significant isSignificant

/-! ## The tokens of a text -/

/-- Tokens that cover a text from its start to its end, each with the text at its place. -/
structure Partition (source : String) (ts : List Token) : Prop where
  nonempty : ∀ t ∈ ts, t.text ≠ ""
  first : ∀ t ∈ ts.head?, t.start = 0
  next : ts.IsChain fun t u => u.start = t.stop
  last : (ts.getLast?.map (·.stop)).getD 0 = source.length
  slice : ∀ t ∈ ts, t.text.toList = (source.toList.drop t.start).take (t.stop - t.start)

/-- A token that is read alike on its own, and that the text behind it could not have made longer. -/
structure Complete (t : Token) (behind : List Char) : Prop where
  alone : tokenize t.text = [⟨t.kind, t.text, 0, t.text.length⟩]
  name : t.kind = .name → ∀ c ∈ behind.head?, isWord c = false
  space : t.kind = .space → ∀ c ∈ behind.head?, isBlank c = false
  comment : t.kind = .comment →
    (∃ a, t.text.toList = '/' :: '/' :: a ∧ '\n' ∉ a ∧ ∀ c ∈ behind.head?, c = '\n') ∨
      ∃ inner, t.text.toList = '/' :: '*' :: (inner ++ ['*', '/']) ∧ ¬ ['*', '/'] <:+: inner ++ ['*']
  slash : t.kind = .mark → t.text = "/" → ∀ r, behind = '*' :: r → ¬ ['*', '/'] <:+: r

theorem startsWith_eq_false_iff {p : Char → Bool} {cs : List Char} :
    startsWith p cs = false ↔ ∀ c ∈ cs.head?, p c = false := by
  cases cs <;> simp

section Cut

variable {source : String} {before after : List Token} {t : Token}

theorem text_of_cut (h : tokenize source = before ++ t :: after) :
    source.toList = textOf before ++ (t.text.toList ++ textOf after) := by
  rw [← textOf_tokenize source, h, textOf_append, textOf_cons]

theorem place_of_cut (h : tokenize source = before ++ t :: after) :
    t.start = (textOf before).length ∧ t.stop = (textOf before).length + t.text.toList.length := by
  have hlaid := tokenize_laid source
  rw [h] at hlaid
  simpa using hlaid.place

/-- The text behind a token is that of the tokens behind it. -/
theorem drop_stop (h : tokenize source = before ++ t :: after) : source.toList.drop t.stop = textOf after := by
  rw [text_of_cut h, (place_of_cut h).2, ← List.append_assoc, List.drop_left' (List.length_append ..)]

theorem slice_of_cut (h : tokenize source = before ++ t :: after) :
    t.text.toList = (source.toList.drop t.start).take (t.stop - t.start) := by
  obtain ⟨hstart, hstop⟩ := place_of_cut h
  rw [text_of_cut h, hstop, hstart, List.drop_left, Nat.add_sub_cancel_left, List.take_left]

theorem stands_of_cut (h : tokenize source = before ++ t :: after) : Stands t.lexeme (textOf after) := by
  have hlex : lexemes source.toList = before.map lexeme ++ [t.lexeme] ++ after.map lexeme := by
    show (tokenize source).map lexeme = _
    simp [h]
  have hrow := (row_of_lexemes hlex).1.append_right
  rw [joined_map_lexeme] at hrow
  exact hrow.1

end Cut

theorem Laid.isChain {o : Nat} {ts : List Token} (h : Laid o ts) : ts.IsChain fun t u => u.start = t.stop := by
  induction ts generalizing o with
  | nil => exact .nil
  | cons t ts ih =>
    have hrest := ih h.2.2
    cases ts with
    | nil => exact .singleton t
    | cons u ts => exact .cons_cons h.2.2.1 hrest

theorem partition_tokenize (source : String) : Partition source (tokenize source) where
  nonempty t ht := by
    obtain ⟨before, after, hcut⟩ := List.append_of_mem ht
    obtain ⟨c, cs, hcs, -⟩ := stands_of_cut hcut
    intro hempty
    rw [lexeme, hempty] at hcs
    cases hcs
  first t ht := by
    obtain ⟨after, hcut⟩ := List.head?_eq_some_iff.mp ht
    exact (place_of_cut (List.nil_append (t :: after) ▸ hcut)).1
  next := (tokenize_laid source).isChain
  last := by
    rw [← String.length_toList]
    rcases List.eq_nil_or_concat (tokenize source) with hnil | ⟨before, t, hcut⟩
    · rw [hnil, ← textOf_tokenize source, hnil]
      rfl
    · rw [List.concat_eq_append] at hcut
      rw [hcut, List.getLast?_concat, Option.map_some, Option.getD_some, (place_of_cut hcut).2, text_of_cut hcut]
      simp
  slice t ht := by
    obtain ⟨before, after, hcut⟩ := List.append_of_mem ht
    exact slice_of_cut hcut

/-- A token whose lexeme is the only one of its text is the only token of it. -/
theorem tokenize_alone {t : Token} (h : lexemes t.text.toList = [t.lexeme]) :
    tokenize t.text = [⟨t.kind, t.text, 0, t.text.length⟩] := by
  have hmap : (tokenize t.text).map lexeme = [t.lexeme] := h
  obtain ⟨u, hu, hlexeme⟩ := List.map_eq_singleton_iff.mp hmap
  have hlaid := tokenize_laid t.text
  rw [hu] at hlaid ⊢
  obtain ⟨hstart, hstop, -⟩ := hlaid
  obtain ⟨kind, text, start, stop⟩ := u
  obtain ⟨hkind, htext⟩ := Prod.mk.inj hlexeme
  obtain rfl : text = t.text := String.toList_inj.mp htext
  obtain rfl : kind = t.kind := hkind
  obtain rfl : start = 0 := hstart
  obtain rfl : stop = t.text.length := by simpa [String.length_toList] using hstop
  rfl

theorem complete_of_stands {t : Token} {behind : List Char} (h : Stands t.lexeme behind) : Complete t behind where
  alone := tokenize_alone h.alone
  name hkind := startsWith_eq_false_iff.mp (h.name_end hkind)
  space hkind := startsWith_eq_false_iff.mp (h.blanks_end hkind)
  comment hkind := by
    refine (h.comment_end hkind).imp_left fun hline => ?_
    obtain ⟨a, ha, hmem, hend⟩ := hline
    refine ⟨a, ha, hmem, fun c hc => ?_⟩
    simpa using startsWith_eq_false_iff.mp hend c hc
  slash hkind htext r hr := by
    subst hr
    have hlexeme : t.lexeme = (.mark, ['/']) := by rw [lexeme, hkind, htext]; rfl
    rw [hlexeme] at h
    exact h.slash_end

/-- Every text is cut into tokens that cover it without a gap, and every token is as long as it could be and is
    read the same from its own text. -/
theorem tokenize_complete (source : String) :
    Partition source (tokenize source) ∧ ∀ t ∈ tokenize source, Complete t (source.toList.drop t.stop) := by
  refine ⟨partition_tokenize source, fun t ht => ?_⟩
  obtain ⟨before, after, hcut⟩ := List.append_of_mem ht
  rw [drop_stop hcut]
  exact complete_of_stands (stands_of_cut hcut)

end Token

end ShaderLoom
