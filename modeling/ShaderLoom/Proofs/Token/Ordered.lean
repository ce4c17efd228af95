/-
  ShaderLoom.Proofs.Token.Ordered — tokens in the order of the text, and edits over some of them.

  Each significant token of a source ends before the next one starts, and none is empty
  (`ordered_significant`). So an edit from the start of one token to the end of another is over those
  two and the ones between them and touches no other (`covers_of_ordered`).
-/

import ShaderLoom.Morph.Edit
import ShaderLoom.Proofs.Token.Layout

namespace ShaderLoom.Token

open ShaderLoom.Lexeme

/-- Tokens in the order of the text, none of them empty. -/
structure Ordered (ts : List Token) : Prop where
  nonempty : ∀ t ∈ ts, t.start < t.stop
  apart : ts.Pairwise fun t u => t.stop ≤ u.start

theorem Ordered.sublist {ts us : List Token} (h : Ordered ts) (hs : us.Sublist ts) : Ordered us :=
  ⟨fun t ht => h.nonempty t (hs.subset ht), h.apart.sublist hs⟩

theorem Ordered.nodup {ts : List Token} (h : Ordered ts) : ts.Nodup := by
  refine h.apart.imp_of_mem fun ht _ hle heq => ?_
  subst heq
  exact absurd (h.nonempty _ ht) (Nat.not_lt.mpr hle)

theorem le_start_of_laid {o : Nat} {ts : List Token} (h : Laid o ts) : ∀ t ∈ ts, o ≤ t.start := by
  induction ts generalizing o with
  | nil => exact fun t ht => absurd ht List.not_mem_nil
  | cons u ts ih =>
    obtain ⟨hstart, hstop, hts⟩ := h
    intro t ht
    rcases List.mem_cons.mp ht with rfl | ht
    · omega
    · have := ih hts t ht
      omega

theorem ordered_of_laid {o : Nat} {ts : List Token} (h : Laid o ts) (hne : ∀ t ∈ ts, t.text.toList ≠ []) : Ordered ts := by
  induction ts generalizing o with
  | nil => exact ⟨fun t ht => absurd ht List.not_mem_nil, .nil⟩
  | cons u ts ih =>
    obtain ⟨hstart, hstop, hts⟩ := h
    obtain ⟨hu, hrest⟩ := List.forall_mem_cons.mp hne
    have hlength := List.length_pos_iff.mpr hu
    obtain ⟨hnonempty, hapart⟩ := ih hts hrest
    exact ⟨List.forall_mem_cons.mpr ⟨by omega, hnonempty⟩, .cons (le_start_of_laid hts) hapart⟩

theorem ordered_significant (source : String) : Ordered (significant (tokenize source)) := by
  have hrow : Row (lexemes source.toList) [] := (row_of_lexemes (List.append_nil _).symm).1
  have hne : ∀ t ∈ tokenize source, t.text.toList ≠ [] := by
    intro t ht
    exact hrow.ne_nil t.lexeme (List.mem_map_of_mem ht)
  exact (ordered_of_laid (tokenize_laid source) hne).sublist List.filter_sublist

/-- An edit over the tokens of an argument, which touches no other token. -/
structure Covers (tokens : List Token) (e : Edit) (argument : List Token) : Prop where
  start : argument.head?.map (·.start) = some e.start
  stop : argument.getLast?.map (·.stop) = some e.stop
  touched : tokens.filter (fun t => decide (e.start < t.stop ∧ t.start < e.stop)) = argument

section Covers

variable {a b c : List Token} {e : Edit} (h : Ordered (a ++ (b ++ c)))
variable (hstart : b.head?.map (·.start) = some e.start) (hstop : b.getLast?.map (·.stop) = some e.stop)

include h

include hstart in
theorem stop_le_of_ahead : ∀ t ∈ a, t.stop ≤ e.start := by
  obtain ⟨first, hfirst, heq⟩ := Option.map_eq_some_iff.mp hstart
  intro t ht
  have hmem := List.mem_append_left c (List.mem_of_mem_head? hfirst)
  exact heq ▸ (List.pairwise_append.mp h.apart).2.2 t ht first hmem

include hstop in
theorem le_start_of_behind : ∀ t ∈ c, e.stop ≤ t.start := by
  obtain ⟨last, hlast, heq⟩ := Option.map_eq_some_iff.mp hstop
  intro t ht
  have hrest := (List.pairwise_append.mp h.apart).2.1
  exact heq ▸ (List.pairwise_append.mp hrest).2.2 last (List.mem_of_getLast? hlast) t ht

include hstart in
theorem start_le_of_within : ∀ t ∈ b, e.start ≤ t.start := by
  cases b with
  | nil => exact fun t ht => absurd ht List.not_mem_nil
  | cons first b =>
    have hfirst : first.start = e.start := Option.some.inj hstart
    have hordered : Ordered (first :: b) := h.sublist ((List.sublist_append_left _ _).trans (List.sublist_append_right _ _))
    intro t ht
    rcases List.mem_cons.mp ht with rfl | ht
    · omega
    · have := (List.pairwise_cons.mp hordered.apart).1 t ht
      have := hordered.nonempty first List.mem_cons_self
      omega

include hstop in
theorem le_stop_of_within : ∀ t ∈ b, t.stop ≤ e.stop := by
  rcases List.eq_nil_or_concat b with rfl | ⟨front, last, rfl⟩
  · exact fun t ht => absurd ht List.not_mem_nil
  · rw [List.concat_eq_append] at h hstop ⊢
    rw [List.getLast?_concat] at hstop
    have hlast : last.stop = e.stop := Option.some.inj hstop
    have hordered : Ordered (front ++ [last]) := h.sublist ((List.sublist_append_left _ _).trans (List.sublist_append_right _ _))
    intro t ht
    rcases List.mem_append.mp ht with ht | ht
    · have := (List.pairwise_append.mp hordered.apart).2.2 t ht last (List.mem_singleton_self _)
      have := hordered.nonempty last (List.mem_append_right _ (List.mem_singleton_self _))
      omega
    · rw [List.mem_singleton.mp ht]
      omega

include hstart hstop in
theorem covers_of_ordered : Covers (a ++ (b ++ c)) e b := by
  refine ⟨hstart, hstop, ?_⟩
  have hahead := stop_le_of_ahead h hstart
  have hbehind := le_start_of_behind h hstop
  have hfrom := start_le_of_within h hstart
  have hto := le_stop_of_within h hstop
  have hfirst : a.filter (fun t => decide (e.start < t.stop ∧ t.start < e.stop)) = [] := by
    refine List.filter_eq_nil_iff.mpr fun t ht => ?_
    have := hahead t ht
    simp only [decide_eq_true_eq]
    omega
  have hmiddle : b.filter (fun t => decide (e.start < t.stop ∧ t.start < e.stop)) = b := by
    refine List.filter_eq_self.mpr fun t ht => ?_
    have := hfrom t ht
    have := hto t ht
    have := h.nonempty t (List.mem_append_right _ (List.mem_append_left _ ht))
    simp only [decide_eq_true_eq]
    omega
  have hlast : c.filter (fun t => decide (e.start < t.stop ∧ t.start < e.stop)) = [] := by
    refine List.filter_eq_nil_iff.mpr fun t ht => ?_
    have := hbehind t ht
    simp only [decide_eq_true_eq]
    omega
  rw [List.filter_append, List.filter_append, hfirst, hmiddle, hlast, List.append_nil, List.nil_append]

end Covers

end ShaderLoom.Token
