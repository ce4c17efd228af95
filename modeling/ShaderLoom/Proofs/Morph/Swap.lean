/-
  ShaderLoom.Proofs.Morph.Swap — edits of a text as a row of kept and swapped stretches.

  A `Swap` is a stretch that is kept and one behind it that is swapped for another; a row of them
  spells the text before and the text after. Made from the last to the first, the edits of a row
  turn the one into the other (`apply_edits`): an edit leaves everything before its start as it
  was (`foldl_make_append`), and sorting by starts keeps the order in which edits with one start
  were given (`lastFirst_cons`).
-/

import ShaderLoom.Morph.Edit

namespace ShaderLoom

/-- A stretch that is kept, and one behind it that is swapped. -/
structure Swap (α : Type) where
  kept : List α
  old : List α
  new : List α

namespace Swap

variable {α : Type}

/-- The text with the old stretches. -/
def before (l : List (Swap α)) : List α := l.flatMap fun s => s.kept ++ s.old

/-- The text with the new stretches. -/
def after (l : List (Swap α)) : List α := l.flatMap fun s => s.kept ++ s.new

@[simp] theorem before_nil : before ([] : List (Swap α)) = [] := rfl
@[simp] theorem after_nil : after ([] : List (Swap α)) = [] := rfl
@[simp] theorem before_cons (s : Swap α) (l : List (Swap α)) :
    before (s :: l) = s.kept ++ s.old ++ before l := by
  simp [before]
@[simp] theorem after_cons (s : Swap α) (l : List (Swap α)) :
    after (s :: l) = s.kept ++ s.new ++ after l := by
  simp [after]

/-- The edits that swap the stretches of a row that starts at `o`. -/
def edits (o : Nat) : List (Swap Char) → List Edit
  | [] => []
  | s :: l =>
    ⟨o + s.kept.length, o + s.kept.length + s.old.length, s.new⟩ :: edits
      (o + s.kept.length + s.old.length) l

theorem length_edits (o : Nat) (l : List (Swap Char)) : (edits o l).length = l.length := by
  induction l generalizing o with
  | nil => rfl
  | cons s l ih => simp [edits, ih]

theorem le_start_of_mem_edits {o : Nat} {l : List (Swap Char)} {e : Edit} (h : e ∈ edits o l) :
    o ≤ e.start := by
  induction l generalizing o with
  | nil => simp [edits] at h
  | cons s l ih =>
    rcases List.mem_cons.mp h with rfl | h
    · exact Nat.le_add_right _ _
    · have := ih h
      omega

theorem pairwise_edits (o : Nat) (l : List (Swap Char)) :
    (edits o l).Pairwise fun e e' => e.stop ≤ e'.start := by
  induction l generalizing o with
  | nil => exact .nil
  | cons s l ih => exact .cons (fun e he => le_start_of_mem_edits he) (ih _)

end Swap

namespace Edit

/-! ## The order of edits -/

theorem lastFirst_cons (e : Edit) (es : List Edit) {p q : List Edit} (h : lastFirst es = p ++ q)
    (hp : ∀ d ∈ p, e.start < d.start) (hq : ∀ d ∈ q, d.start ≤ e.start) :
      lastFirst (e :: es) = p ++ e :: q := by
  obtain ⟨l₁, l₂, hsort, hrest, hl₁⟩ :=
    @List.mergeSort_cons _ (fun a b : Edit => decide (b.start ≤ a.start))
      (by simp only [decide_eq_true_eq]; omega)
      (by simp only [Bool.or_eq_true, decide_eq_true_eq]; omega) e es
  have hl₂ : ∀ d ∈ l₂, d.start ≤ e.start := by
    have hsorted := @List.pairwise_mergeSort _ (fun a b : Edit => decide (b.start ≤ a.start))
      (by simp only [decide_eq_true_eq]; omega)
      (by simp only [Bool.or_eq_true, decide_eq_true_eq]; omega) (e :: es)
    rw [hsort] at hsorted
    intro d hd
    simpa using (List.pairwise_cons.mp (List.pairwise_append.mp hsorted).2.1).1 d hd
  -- both cuts of the rest fall where the starts pass that of the new edit
  have hcut : ∀ l r : List Edit, (∀ d ∈ l, e.start < d.start) → (∀ d ∈ r, d.start ≤ e.start) →
      (l ++ r).filter (fun d => decide (e.start < d.start)) = l ∧
        (l ++ r).filter (fun d => decide (d.start ≤ e.start)) = r := by
    intro l r hl hr
    simp only [List.filter_append]
    constructor
    · rw [List.filter_eq_self.mpr fun d hd => by simpa using hl d hd,
        List.filter_eq_nil_iff.mpr fun d hd => by simpa using hr d hd, List.append_nil]
    · rw [List.filter_eq_nil_iff.mpr fun d hd => by simpa using hl d hd,
        List.filter_eq_self.mpr fun d hd => by simpa using hr d hd, List.nil_append]
  have hl₁' : ∀ d ∈ l₁, e.start < d.start := fun d hd => by simpa using hl₁ d hd
  have heq : l₁ ++ l₂ = p ++ q := by rw [← hrest, ← h]; rfl
  have hl₁p : l₁ = p := by rw [← (hcut l₁ l₂ hl₁' hl₂).1, heq, (hcut p q hp hq).1]
  have hl₂q : l₂ = q := by rw [← (hcut l₁ l₂ hl₁' hl₂).2, heq, (hcut p q hp hq).2]
  rw [lastFirst, hsort, hl₁p, hl₂q]

theorem lastFirst_edits {o : Nat} {l : List (Swap Char)} {es : List Edit} (hold : ∀ s ∈ l, s.old ≠ [])
    (hes : ∀ e ∈ lastFirst es, e.start ≤ o) :
    lastFirst (Swap.edits o l ++ es) = (Swap.edits o l).reverse ++ lastFirst es := by
  induction l generalizing o with
  | nil => rfl
  | cons s l ih =>
    have hpos : 0 < s.old.length := List.length_pos_iff.mpr (hold s (by simp))
    have hrest := ih (o := o + s.kept.length + s.old.length) (fun s hs => hold s (by simp [hs]))
      fun e he => by have := hes e he; omega
    rw [Swap.edits, List.cons_append, List.reverse_cons, List.append_assoc]
    refine lastFirst_cons _ _ hrest (fun d hd => ?_) fun d hd => ?_
    · have := Swap.le_start_of_mem_edits (List.mem_reverse.mp hd)
      show o + s.kept.length < d.start
      omega
    · have := hes d hd
      show d.start ≤ o + s.kept.length
      omega

theorem lastFirst_singleton (e : Edit) : lastFirst [e] = [e] := List.mergeSort_singleton e

/-- Of two insertions the one further back is made first; at one offset, the one given first. -/
theorem lastFirst_pair {d e : Edit} (h : d.start ≤ e.start) :
    lastFirst [d, e] = if d.start < e.start then [e, d] else [d, e] := by
  split
  · rename_i hlt
    exact lastFirst_cons (p := [e]) (q := []) d [e] (lastFirst_singleton e) (by simpa using hlt) (by simp)
  · rename_i hge
    refine lastFirst_cons (p := []) (q := [e]) d [e] (lastFirst_singleton e) (by simp) ?_
    intro x hx
    obtain rfl := List.mem_singleton.mp hx
    omega

/-! ## Making edits -/

/-- Each edit ends before the start of the one made before it, the first one before `n`. -/
def Descends (n : Nat) : List Edit → Prop
  | [] => True
  | e :: es => e.start ≤ e.stop ∧ e.stop ≤ n ∧ Descends e.start es

theorem Descends.mono {m n : Nat} {es : List Edit} (h : Descends m es) (hmn : m ≤ n) : Descends n es := by
  cases es with
  | nil => trivial
  | cons e es => exact ⟨h.1, Nat.le_trans h.2.1 hmn, h.2.2⟩

theorem foldl_make_append {es : List Edit} {front : List Char} (h : Descends front.length es)
    (back : List Char) :
    es.foldl make (front ++ back) = es.foldl make front ++ back := by
  induction es generalizing front back with
  | nil => rfl
  | cons e es ih =>
    obtain ⟨hle, hstop, hes⟩ := h
    have hlen : (front.take e.start).length = e.start := by simp; omega
    have hmake : ∀ b, make (front ++ b) e = front.take e.start ++ (e.text ++ front.drop e.stop ++ b) := by
      intro b
      rw [make, List.take_append_of_le_length (by omega), List.drop_append_of_le_length hstop]
      simp
    have hfront := hmake []
    rw [List.append_nil, List.append_nil] at hfront
    rw [List.foldl_cons, List.foldl_cons, hmake, hfront, ih (by rwa [hlen]), ih (by rwa [hlen])]
    simp

theorem foldl_make_edits {front tail : List Char} {l : List (Swap Char)} {es : List Edit}
    (hes : Descends front.length es) :
    ((Swap.edits front.length l).reverse ++ es).foldl make (front ++ (Swap.before l ++ tail)) =
      es.foldl make front ++ (Swap.after l ++ tail) := by
  induction l generalizing front es with
  | nil => exact foldl_make_append hes tail
  | cons s l ih =>
    let e : Edit := ⟨front.length + s.kept.length, front.length + s.kept.length + s.old.length, s.new⟩
    have hlen : (front ++ s.kept ++ s.old).length = e.stop := by simp [e, Nat.add_assoc]
    have hlen' : (front ++ s.kept).length = e.start := by simp [e]
    have hmake : make (front ++ s.kept ++ s.old) e = front ++ (s.kept ++ s.new) := by
      rw [make, ← hlen', List.take_left, ← hlen, List.drop_length, List.append_nil, List.append_assoc]
    have hdesc : Descends (front ++ s.kept ++ s.old).length (e :: es) :=
      ⟨Nat.le_add_right _ _, Nat.le_of_eq hlen.symm, hes.mono (Nat.le_add_right _ _)⟩
    have hrest := ih hdesc
    have hcut : front ++ (Swap.before (s :: l) ++ tail) =
        front ++ s.kept ++ s.old ++ (Swap.before l ++ tail) := by simp
    rw [hlen] at hrest
    rw [Swap.edits, List.reverse_cons, List.append_assoc, List.singleton_append, hcut, hrest,
      List.foldl_cons, hmake, foldl_make_append hes]
    simp

theorem Descends.start_le {n : Nat} {es : List Edit} (h : Descends n es) : ∀ e ∈ es, e.start ≤ n := by
  induction es generalizing n with
  | nil => simp
  | cons e es ih =>
    obtain ⟨hle, hstop, hes⟩ := h
    intro d hd
    rcases List.mem_cons.mp hd with rfl | hd
    · omega
    · have := ih hes d hd
      omega

/-- The edits of a row of swaps, given before others that are made in the text before the row. -/
theorem apply_edits {front : List Char} {l : List (Swap Char)} {es : List Edit} (hold : ∀ s ∈ l, s.old ≠ [])
    (hes : Descends front.length (lastFirst es)) (tail : List Char) :
    apply (front ++ (Swap.before l ++ tail)) (Swap.edits front.length l ++ es) =
      apply front es ++ (Swap.after l ++ tail) := by
  rw [apply, lastFirst_edits hold hes.start_le, foldl_make_edits hes, apply]

/-! ## Insertions -/

theorem make_insertion (above below text : List Char) :
    make (above ++ below) (insertion above.length text) = above ++ (text ++ below) := by
  simp [make, insertion]

theorem apply_insertion (front text : List Char) :
    apply front [insertion front.length text] = front ++ text := by
  rw [apply, lastFirst_singleton, List.foldl_cons, List.foldl_nil]
  simpa using make_insertion front [] text

/-- Two insertions, one of them at the end. At the end both, the second comes in front. -/
theorem apply_two_insertions (above below text last : List Char) :
    apply (above ++ below) [insertion above.length text, insertion (above ++ below).length last] =
      if below = [] then above ++ (last ++ text) else above ++ (text ++ (below ++ last)) := by
  have hpair := lastFirst_pair (d := insertion above.length text)
    (e := insertion (above ++ below).length last)
    (by simp [insertion])
  rw [apply, hpair]
  by_cases hbelow : below = []
  · subst hbelow
    rw [if_neg (by simp [insertion]), if_pos rfl, List.append_nil, List.foldl_cons, List.foldl_cons,
      List.foldl_nil]
    have := make_insertion above [] text
    rw [List.append_nil, List.append_nil] at this
    rw [this, make_insertion]
  · have hpos : 0 < below.length := List.length_pos_iff.mpr hbelow
    rw [if_pos (by simp [insertion, hpos]), if_neg hbelow, List.foldl_cons, List.foldl_cons, List.foldl_nil]
    have := make_insertion (above ++ below) [] last
    rw [List.append_nil, List.append_nil, List.append_assoc] at this
    rw [this, make_insertion]

theorem descends_insertion (front text : List Char) :
    Descends front.length (lastFirst [insertion front.length text]) := by
  rw [lastFirst_singleton]
  exact ⟨Nat.le_refl _, Nat.le_refl _, trivial⟩

theorem descends_two_insertions (above below text last : List Char) :
    Descends (above ++ below).length
      (lastFirst [insertion above.length text, insertion (above ++ below).length last]) := by
  have hle : above.length ≤ (above ++ below).length := by simp
  rw [lastFirst_pair hle]
  split
  · exact ⟨Nat.le_refl _, Nat.le_refl _, Nat.le_refl _, hle, trivial⟩
  · rename_i hge
    exact ⟨Nat.le_refl _, hle, Nat.le_refl _, Nat.le_of_not_lt hge, trivial⟩

end Edit

end ShaderLoom
