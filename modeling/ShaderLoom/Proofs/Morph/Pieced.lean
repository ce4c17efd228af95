/-
  ShaderLoom.Proofs.Morph.Pieced — edits made in one pass from left to right.

  `pieced` goes through a text once: what lies before an edit is kept, what the edit is over is left out,
  and the text of the edit stands there. Edits within the text that do not overlap and have starts of their
  own (`Apart`) have one order from the first start to the last, in whatever order they are given
  (`lastFirst_perm`). Made from the last to the first, each finds the text up to its stop as it was
  (`foldr_make`), so what comes out is the text pieced together (`apply_pieced`).
-/

import Mathlib.Algebra.BigOperators.Group.List.Basic
import Mathlib.Algebra.Ring.Int.Defs
import Mathlib.Data.List.Permutation
import ShaderLoom.Morph.Edit

namespace ShaderLoom.Edit

/-- The text from an offset on, with edits that are given from the first to the last. -/
def pieced (source : List Char) (offset : Nat) : List Edit → List Char
  | [] => source.drop offset
  | e :: es => (source.drop offset).take (e.start - offset) ++ e.text ++ pieced source e.stop es

/-- By how much an edit makes a text longer. -/
def growth (e : Edit) : Int := (e.text.length : Int) - ((e.stop : Int) - (e.start : Int))

/-- Edits within a text that can be made side by side; none of them, an insertion as little as another, is inside
    what another is over. -/
structure Apart (source : List Char) (edits : List Edit) : Prop where
  within : ∀ e ∈ edits, e.start ≤ e.stop ∧ e.stop ≤ source.length
  disjoint : edits.Pairwise fun d e => d.stop ≤ e.start ∨ e.stop ≤ d.start
  starts : (edits.map (·.start)).Nodup

variable {source : List Char} {edits given : List Edit}

theorem Apart.perm (h : Apart source edits) (hp : given.Perm edits) : Apart source given where
  within e he := h.within e (hp.mem_iff.mp he)
  disjoint := (hp.pairwise_iff Or.symm).mpr h.disjoint
  starts := (hp.map _).nodup_iff.mpr h.starts

/-! ## Their order -/

theorem pairwise_lastFirst (edits : List Edit) : (lastFirst edits).Pairwise fun d e => e.start ≤ d.start := by
  have h : (lastFirst edits).Pairwise fun d e => decide (e.start ≤ d.start) = true := List.pairwise_mergeSort
    (by simp only [decide_eq_true_eq]; omega) (by simp only [Bool.or_eq_true, decide_eq_true_eq]; omega) edits
  exact h.imp of_decide_eq_true

/-- Edits with starts of their own are made in one order, in whatever order they are given. -/
theorem lastFirst_perm (hn : (edits.map (·.start)).Nodup) (hp : given.Perm edits) :
    lastFirst given = lastFirst edits := by
  have hgiven : (lastFirst given).Perm given := List.mergeSort_perm _ _
  have hedits : (lastFirst edits).Perm edits := List.mergeSort_perm _ _
  refine ((hgiven.trans hp).trans hedits.symm).eq_of_pairwise (fun d e hd he hed hde => ?_) (pairwise_lastFirst given)
    (pairwise_lastFirst edits)
  exact List.inj_on_of_nodup_map hn ((hgiven.trans hp).mem_iff.mp hd) (hedits.mem_iff.mp he) (Nat.le_antisymm hde hed)

/-- The edits from the first to the last. -/
def firstFirst (edits : List Edit) : List Edit := (lastFirst edits).reverse

theorem firstFirst_perm (edits : List Edit) : (firstFirst edits).Perm edits :=
  (List.reverse_perm _).trans (List.mergeSort_perm _ _)

/-- In order each edit starts behind the one before it, and not before that one stops. -/
theorem Apart.pairwise_firstFirst (h : Apart source edits) :
    (firstFirst edits).Pairwise fun d e => d.start < e.start ∧ d.stop ≤ e.start := by
  have hordered := h.perm (firstFirst_perm edits)
  have hle : (firstFirst edits).Pairwise fun d e => d.start ≤ e.start :=
    List.pairwise_reverse.mpr (pairwise_lastFirst edits)
  have hne := List.pairwise_map.mp hordered.starts
  refine (hle.and (hne.and hordered.disjoint)).imp_of_mem fun hd he hde => ?_
  obtain ⟨hde, hstart, hdisjoint⟩ := hde
  have hlt := Nat.lt_of_le_of_ne hde hstart
  have hstop := (hordered.within _ he).1
  exact ⟨hlt, hdisjoint.resolve_right (by omega)⟩

/-- Each edit starts no earlier than the one before it stops, the first no earlier than an offset. -/
def Ascends (source : List Char) (offset : Nat) : List Edit → Prop
  | [] => offset ≤ source.length
  | e :: es => offset ≤ e.start ∧ e.start ≤ e.stop ∧ Ascends source e.stop es

theorem ascends_of_pairwise {offset : Nat} {es : List Edit} (hoffset : offset ≤ source.length)
    (hfrom : ∀ e ∈ es, offset ≤ e.start) (hwithin : ∀ e ∈ es, e.start ≤ e.stop ∧ e.stop ≤ source.length)
    (hes : es.Pairwise fun d e => d.stop ≤ e.start) : Ascends source offset es := by
  induction es generalizing offset with
  | nil => exact hoffset
  | cons e es ih =>
    obtain ⟨hfirst, hrest⟩ := List.pairwise_cons.mp hes
    obtain ⟨⟨hle, hstop⟩, hothers⟩ := List.forall_mem_cons.mp hwithin
    exact ⟨hfrom e List.mem_cons_self, hle, ih hstop hfirst hothers hrest⟩

theorem Apart.ascends (h : Apart source edits) : Ascends source 0 (firstFirst edits) :=
  ascends_of_pairwise (Nat.zero_le _) (fun _ _ => Nat.zero_le _) (h.perm (firstFirst_perm edits)).within
    (h.pairwise_firstFirst.imp And.right)

theorem Ascends.offset_le {offset : Nat} {es : List Edit} (h : Ascends source offset es) : offset ≤ source.length := by
  induction es generalizing offset with
  | nil => exact h
  | cons e es ih =>
    obtain ⟨hstart, hle, hes⟩ := h
    have := ih hes
    omega

/-! ## Making them -/

/-- An edit of a text that is still as it was up to the stop of the edit. -/
theorem make_take_append {e : Edit} (hle : e.start ≤ e.stop) (hstop : e.stop ≤ source.length) (rest : List Char) :
    make (source.take e.stop ++ rest) e = source.take e.start ++ e.text ++ rest := by
  have hlen : (source.take e.stop).length = e.stop := List.length_take_of_le hstop
  rw [make, List.take_append_of_le_length (by omega), List.take_take, Nat.min_eq_left hle, List.drop_left' hlen]

/-- From the last edit to the first: before the offset nothing has changed yet. -/
theorem foldr_make {offset : Nat} {es : List Edit} (h : Ascends source offset es) :
    es.foldr (fun e text => make text e) source = source.take offset ++ pieced source offset es := by
  induction es generalizing offset with
  | nil => exact (List.take_append_drop offset source).symm
  | cons e es ih =>
    obtain ⟨hstart, hle, hes⟩ := h
    have hkept : source.take e.start = source.take offset ++ (source.drop offset).take (e.start - offset) := by
      rw [← List.take_add, Nat.add_sub_cancel' hstart]
    rw [List.foldr_cons, ih hes, make_take_append hle hes.offset_le, hkept, pieced]
    simp only [List.append_assoc]

theorem length_pieced {offset : Nat} {es : List Edit} (h : Ascends source offset es) :
    ((pieced source offset es).length : Int) = (source.length : Int) - offset + (es.map growth).sum := by
  induction es generalizing offset with
  | nil =>
    have hoffset : offset ≤ source.length := h
    rw [pieced, List.length_drop, List.map_nil, List.sum_nil]
    omega
  | cons e es ih =>
    obtain ⟨hstart, hle, hes⟩ := h
    have hstop := hes.offset_le
    have hrest := ih hes
    rw [pieced, List.map_cons, List.sum_cons, growth]
    simp only [List.length_append, List.length_take, List.length_drop]
    omega

/-- Edits that can be made side by side, given in any order, make of a text what one pass over it from left to
    right makes; it grows by what each of them adds. -/
theorem apply_pieced (h : Apart source edits) :
    ∃ ordered : List Edit, ordered.Perm edits ∧
      (ordered.Pairwise fun d e => d.start < e.start ∧ d.stop ≤ e.start) ∧
      (∀ given : List Edit, given.Perm edits → apply source given = pieced source 0 ordered) ∧
      ((apply source edits).length : Int) = source.length + (edits.map growth).sum := by
  have hmade : ∀ given : List Edit, given.Perm edits → apply source given = pieced source 0 (firstFirst edits) := by
    intro given hp
    calc apply source given
      _ = (firstFirst edits).foldr (fun e text => make text e) source := by
        rw [apply, lastFirst_perm h.starts hp, firstFirst, List.foldr_reverse]
      _ = pieced source 0 (firstFirst edits) := by
        rw [foldr_make h.ascends, List.take_zero, List.nil_append]
  refine ⟨firstFirst edits, firstFirst_perm edits, h.pairwise_firstFirst, hmade, ?_⟩
  have hsum : ((firstFirst edits).map growth).sum = (edits.map growth).sum := ((firstFirst_perm edits).map _).sum_eq
  rw [hmade edits (List.Perm.refl _), length_pieced h.ascends, hsum, Int.natCast_zero, Int.sub_zero]

/-- Edits that touch one another, two of them insertions, the last one given first. -/
def touchingEdits : List Edit := [⟨6, 6, "!".toList⟩, ⟨1, 4, "-".toList⟩, ⟨4, 6, []⟩, ⟨0, 0, ">".toList⟩]

theorem touchingEdits_pieced : Apart "abcdef".toList touchingEdits ∧
    apply "abcdef".toList touchingEdits.reverse = apply "abcdef".toList touchingEdits ∧
    apply "abcdef".toList touchingEdits = ">a-!".toList ∧ (touchingEdits.map growth).sum = -2 := by
  have hapart : Apart "abcdef".toList touchingEdits := ⟨by decide, by decide, by decide⟩
  obtain ⟨ordered, -, -, hmade, hlength⟩ := apply_pieced hapart
  have htext : apply "abcdef".toList touchingEdits = ">a-!".toList := by cbv
  refine ⟨hapart, ?_, htext, ?_⟩
  · rw [hmade _ (List.reverse_perm _), ← hmade _ (List.Perm.refl _)]
  · rw [htext] at hlength
    have hgrown : (4 : Int) = 6 + (touchingEdits.map growth).sum := hlength
    omega

end ShaderLoom.Edit
