/-
  ShaderLoom.Proofs.Lexeme.Parted — where a text may be cut without cutting a lexeme.

  Two texts are parted (`Parted`) when the lexemes of both together are those of the one and then
  those of the other. A text is closed (`Closed`) when it is parted from whatever comes behind it;
  closed texts compose (`Closed.append`). A fixed text is tried out before the end of a comment
  (`isCut`): what is cut off there is cut off before any text, one that ends in blanks before any
  that starts with none (`parted_of_isCut`, `closed_of_isCut`). Text without blanks and slashes is
  parted from a barrier that goes on no word (`parted_of_solid`), a line comment from the line
  end (`parted_lineComment`), and a text without a blank at its end from a line end behind which no
  comment is closed (`parted_line`).
-/

import ShaderLoom.Proofs.Lexeme.Significant

namespace ShaderLoom.Lexeme

open ShaderLoom.Text

/-- No lexeme lies across the border of the two texts. -/
def Parted (u v : List Char) : Prop := lexemes (u ++ v) = lexemes u ++ lexemes v

/-- Nothing behind the text changes its lexemes. -/
def Closed (u : List Char) : Prop := ∀ v, Parted u v

variable {u v w : List Char}

/-- Nothing at all could add less to a lexeme than any text does. -/
theorem mimics_nil (v : List Char) : Mimics v [] where
  starts p _ h := absurd h (by simp)
  signed h := absurd h (by simp [startsSigned])
  power h := absurd rfl h
  star x h := nomatch h
  closes h := absurd h not_closes_nil

/-- The lexemes of a text are those that were cut off before another one. -/
theorem lexemes_of_append {xs : List Lexeme} (h : lexemes (u ++ v) = xs ++ lexemes v) (hxs : joined xs = u) :
    lexemes u = xs := by
  have hrow := (row_of_lexemes h).1
  rw [joined_lexemes] at hrow
  have := (hrow.transport (mimics_nil v) fun x _ _ _ => rfl).lexemes_append
  rwa [hxs, List.append_nil, lexemes_nil, List.append_nil] at this

theorem parted_of_lexemes (xs : List Lexeme) (h : lexemes (u ++ v) = xs ++ lexemes v) (hxs : joined xs = u) :
    Parted u v := by
  rw [Parted, lexemes_of_append h hxs, h]

theorem Parted.append (hu : Parted u (v ++ w)) (hv : Parted v w) : Parted (u ++ v) w := by
  refine parted_of_lexemes (lexemes u ++ lexemes v) ?_ ?_
  · rw [List.append_assoc, hu, hv, List.append_assoc]
  · rw [joined_append, joined_lexemes, joined_lexemes]

theorem Parted.significant (h : Parted u v) :
    significant (u ++ v) = Lexeme.significant u ++ Lexeme.significant v := by
  rw [Lexeme.significant, h, List.filter_append]
  rfl

theorem mem_of_mem_significant {x : Lexeme} {c : Char} (hx : x ∈ significant u) (hc : c ∈ x.2) : c ∈ u := by
  rw [← joined_lexemes u]
  exact List.mem_flatMap.mpr ⟨x, (List.mem_filter.mp hx).1, hc⟩

theorem closed_nil : Closed [] := fun _ => rfl

theorem Closed.append (hu : Closed u) (hv : Closed v) : Closed (u ++ v) := fun w => (hu (v ++ w)).append (hv w)

/-- A text that a closed one behind it is parted from. -/
theorem Closed.prepend (hu : ∀ w, Parted u (v ++ w)) (hv : Closed v) : Closed (u ++ v) := fun w => (hu w).append (hv w)

theorem Closed.flatMap {α : Type} {f : α → List Char} {l : List α} (h : ∀ a ∈ l, Closed (f a)) :
    Closed (l.flatMap f) := by
  induction l with
  | nil => exact closed_nil
  | cons a l ih =>
    rw [List.flatMap_cons]
    exact (h a (by simp)).append (ih fun b hb => h b (by simp [hb]))

theorem significant_flatMap {α : Type} {f : α → List Char} {g : α → List Lexeme} {l : List α}
    (hf : ∀ a ∈ l, Closed (f a)) (hg : ∀ a ∈ l, significant (f a) = g a) : significant (l.flatMap f) = l.flatMap g := by
  induction l with
  | nil => rfl
  | cons a l ih =>
    rw [List.flatMap_cons, List.flatMap_cons, (hf a (by simp) _).significant, hg a (by simp),
      ih (fun b hb => hf b (by simp [hb])) fun b hb => hg b (by simp [hb])]

/-! ## Fixed texts -/

/-- Whether the last lexeme of a text is over before the end of a comment: a run of blanks, or a
barrier that is a lexeme of its own. -/
def isCut (cs : List Char) : Bool :=
  match (read 0 (cs ++ ['*', '/'])).reverse with
  | slash :: star :: last :: _ =>
    slash == (.mark, ['/']) && star == (.mark, ['*']) &&
      (last.1 == .space || match last.2 with
        | [b] => isBarrier b && isPlain b
        | _ => false)
  | _ => false

theorem row_of_isCut (h : isCut u = true) : ∃ xs last, joined xs ++ last.2 = u ∧ Row xs (last.2 ++ ['*', '/']) ∧
    Stands last ['*', '/'] ∧ (last.1 = .space ∨ ∃ b, last.2 = [b] ∧ isBarrier b = true ∧ isPlain b = true) := by
  unfold isCut at h
  split at h
  · rename_i slash star last before hread
    simp only [Bool.and_eq_true, Bool.or_eq_true, beq_iff_eq] at h
    obtain ⟨⟨rfl, rfl⟩, hlast⟩ := h
    have hlex : lexemes (u ++ ['*', '/']) = before.reverse ++ (last :: [(.mark, ['*']), (.mark, ['/'])]) := by
      rw [lexemes_eq_read, ← List.reverse_reverse (read 0 _), hread]
      simp
    have hspells := joined_lexemes (u ++ ['*', '/'])
    rw [hlex, joined_append, joined_cons, ← List.append_assoc] at hspells
    obtain ⟨hrow, hrest⟩ := row_of_lexemes hlex
    have hstands : Row [last] (joined [(.mark, ['*']), (.mark, ['/'])]) := And.left (row_of_lexemes hrest)
    refine ⟨_, last, List.append_cancel_right hspells, hrow, hstands.1, hlast.imp_right fun hb => ?_⟩
    split at hb
    · rename_i b hsingle
      exact ⟨b, hsingle, Bool.and_eq_true_iff.mp hb⟩
    · cases hb
  · cases h

/-- A run of blanks is over before a text that starts with none. -/
theorem Stands.of_blanks {x : Lexeme} (h : Stands x v) (hx : x.1 = .space) (hw : startsWith isBlank w = false) :
    Stands x w := by
  have hall := h.of_space hx
  obtain ⟨c, t, ht, -⟩ := h
  rw [ht] at hall
  obtain ⟨hc, hrest⟩ := List.forall_mem_cons.mp hall
  refine ⟨c, t, ht, ?_⟩
  rw [first_of_blank hc, takeWhile_append_eq_left.mpr ⟨hrest, hw⟩, ← ht, ← hx]

/-- A text that ends in blanks is parted from one that starts with none, and any other from all. -/
theorem parted_of_isCut (h : isCut u = true)
    (hv : startsWith isBlank v = false ∨ ∀ b ∈ u.getLast?, isBlank b = false) : Parted u v := by
  obtain ⟨xs, last, rfl, hrow, hstands, hlast⟩ := row_of_isCut h
  obtain ⟨c, t, ht⟩ : ∃ c t, last.2 = c :: t := by
    obtain ⟨c, t, ht, -⟩ := hstands
    exact ⟨c, t, ht⟩
  have hbehind : isBarrier c = true ∧ Stands last v := by
    rcases hlast with hspace | ⟨b, hb, hbarrier, hplain⟩
    · have hblanks := hstands.of_space hspace
      have hc : isBlank c = true := hblanks c (by simp [ht])
      refine ⟨(blank_spec hc).1, hstands.of_blanks hspace (hv.resolve_right fun hends => ?_)⟩
      obtain ⟨init, b, hb⟩ := List.eq_nil_or_concat last.2 |>.resolve_left (by simp [ht])
      rw [List.concat_eq_append] at hb
      have hblank := hblanks b (by simp [hb])
      rw [hends b (by rw [hb, ← List.append_assoc, List.getLast?_concat]; rfl)] at hblank
      cases hblank
    · obtain ⟨rfl, -⟩ := List.cons.inj (hb.symm.trans ht)
      rw [hstands.of_plain hb hplain]
      exact ⟨hbarrier, b, [], rfl, first_of_plain hplain _⟩
  rw [ht] at hrow
  have hcloses : Closes (t ++ ['*', '/']) := (show Closes ['*', '/'] by simp [Closes, blockEnd?]).append_left t
  have hrow' : Row xs (last.2 ++ v) := ht ▸ hrow.behind hbehind.1 fun _ => hcloses
  refine parted_of_lexemes (xs ++ [last]) ?_ (by simp)
  rw [List.append_assoc, hrow'.lexemes_append, hbehind.2.lexemes_append, List.append_assoc]
  rfl

theorem closed_of_isCut (h : isCut u = true) (hends : u.getLast?.all (!isBlank ·) = true) : Closed u := by
  refine fun v => parted_of_isCut h (Or.inr fun b hb => ?_)
  rw [Option.mem_def.mp hb] at hends
  simpa using hends

/-! ## Pieces -/

/-- Closed text that starts with no blank. -/
structure Piece (u : List Char) : Prop where
  closed : Closed u
  start : startsWith (!isBlank ·) u = true

namespace Piece

variable {a : List Char}

theorem parted (hu : Piece u) (ha : isCut a = true) (v : List Char) : Parted a (u ++ v) := by
  refine parted_of_isCut ha (Or.inl ?_)
  have hstart := hu.start
  cases u with
  | nil => cases hstart
  | cons c u => simpa using hstart

theorem behind (hu : Piece u) (ha : isCut a = true) : Closed (a ++ u) :=
  Closed.prepend (fun w => hu.parted ha w) hu.closed

/-- A piece behind a text without significant lexemes. -/
theorem significant_behind (hu : Piece u) (ha : isCut a = true) (hnone : significant a = []) :
    significant (a ++ u) = significant u := by
  have hparted := hu.parted ha []
  rw [List.append_nil] at hparted
  rw [hparted.significant, hnone, List.nil_append]

end Piece

theorem piece_of_isCut (h : isCut u = true) (hends : u.getLast?.all (!isBlank ·) = true)
    (hstart : startsWith (!isBlank ·) u = true) : Piece u where
  closed := closed_of_isCut h hends
  start := hstart

/-! ## Texts that are not fixed -/

/-- Neither a blank nor a slash. -/
def isSolid (c : Char) : Bool := !isBlank c && c != '/'

/-- The first lexeme of a solid text is over before a barrier that goes on no word. -/
theorem first_solid {c b : Char} (hc : isSolid c = true) (hb : isBarrier b = true) (hw : isWord b = false)
    (a v : List Char) : (first c (a ++ b :: v)).2 <+: c :: a := by
  simp only [isSolid, Bool.and_eq_true, Bool.not_eq_true', bne_iff_ne] at hc
  rcases first_char_cases c with h | h | rfl | ⟨h, hblank⟩ | h
  · rw [hc.1] at h
    cases h
  · rw [first_of_nameStart h, takeWhile_before hw]
    exact List.cons_prefix_cons.mpr ⟨rfl, List.takeWhile_prefix _⟩
  · exact absurd rfl hc.2
  · rw [first_of_numeral h hblank]
    cases hn : number? (c :: (a ++ b :: v)) with
    | none => exact List.cons_prefix_cons.mpr ⟨rfl, List.nil_prefix⟩
    | some text => exact prefix_before (number?_isPrefix hn) (number?_no_barrier hb hn)
  · rw [first_of_plain h]
    exact List.cons_prefix_cons.mpr ⟨rfl, List.nil_prefix⟩

/-- A text is parted from another if the first lexeme of each of its ends is over by then. -/
theorem parted_of_first {P : List Char → Prop} (hfirst : ∀ c u, P (c :: u) → (first c (u ++ v)).2 <+: c :: u)
    (hend : ∀ t r, P (t ++ r) → P r) (hu : P u) : Parted u v := by
  suffices ∀ n (u : List Char), u.length ≤ n → P u → ∃ xs, lexemes (u ++ v) = xs ++ lexemes v ∧ joined xs = u by
    obtain ⟨xs, hlex, hxs⟩ := this _ u (Nat.le_refl _) hu
    exact parted_of_lexemes _ hlex hxs
  intro n
  induction n with
  | zero =>
    intro u hlen _
    rw [List.length_eq_zero_iff.mp (Nat.le_zero.mp hlen)]
    exact ⟨[], rfl, rfl⟩
  | succ n ih =>
    intro u hlen hu
    cases u with
    | nil => exact ⟨[], rfl, rfl⟩
    | cons c u =>
      obtain ⟨r, hr⟩ := hfirst c u hu
      have hrest : (c :: (u ++ v)).drop (first c (u ++ v)).2.length = r ++ v := by
        rw [← List.cons_append, ← hr, List.append_assoc, List.drop_left]
      obtain ⟨xs, hlex, hxs⟩ := ih r (by
        have hpos := List.length_pos_iff.mpr (first_ne_nil c (u ++ v))
        have := congrArg List.length hr
        simp only [List.length_append, List.length_cons] at this hlen
        omega) (hend _ r (hr.symm ▸ hu))
      refine ⟨first c (u ++ v) :: xs, ?_, by rw [joined_cons, hxs, hr]⟩
      rw [List.cons_append, lexemes_cons, hrest, hlex, List.cons_append]

theorem parted_of_solid {b : Char} (hu : ∀ c ∈ u, isSolid c = true) (hb : isBarrier b = true)
    (hw : isWord b = false) : Parted u (b :: v) := by
  refine parted_of_first (P := fun u => ∀ c ∈ u, isSolid c = true) (fun c u h => ?_) (fun t r h => ?_) hu
  · exact first_solid (h c List.mem_cons_self) hb hw u v
  · exact (List.forall_mem_append.mp h).2

/-- A text that does not end in a blank is parted from a line end with no end of a comment behind. -/
theorem parted_line (hu : ∀ b ∈ u.getLast?, isBlank b = false) (hv : ¬Closes v) : Parted u ('\n' :: v) := by
  refine parted_of_first (P := fun u => ∀ b ∈ u.getLast?, isBlank b = false) (fun c u h => ?_) (fun t r h => ?_) hu
  · rcases first_line hv c u with hc | hpre
    · rw [first_of_blank hc]
      -- The last character is no blank, so the run is over before it.
      rcases List.eq_nil_or_concat u with rfl | ⟨init, b, rfl⟩
      · exact absurd hc (by simp [h c rfl])
      · rw [List.concat_eq_append] at h ⊢
        have hb : isBlank b = false := h b (by rw [← List.cons_append, List.getLast?_concat]; rfl)
        rw [List.append_assoc, List.singleton_append, takeWhile_before hb]
        exact List.cons_prefix_cons.mpr ⟨rfl, (List.takeWhile_prefix _).trans (List.prefix_append _ _)⟩
    · exact hpre
  · intro b hb
    refine h b ?_
    rw [List.getLast?_append, Option.mem_def.mp hb]
    rfl

theorem parted_lineComment {a : List Char} (ha : ∀ c ∈ a, c ≠ '\n') (hv : endsLine v) :
    Parted ('/' :: '/' :: a) v := by
  have hrun : (a ++ v).takeWhile (· != '\n') = a :=
    takeWhile_append_eq_left.mpr ⟨fun c hc => by simpa using ha c hc, hv⟩
  have hstands : Stands (.comment, '/' :: '/' :: a) v :=
    ⟨'/', '/' :: a, rfl, by rw [first_slash]; simp [comment?, hrun]⟩
  exact parted_of_lexemes [_] hstands.lexemes_append (by simp)

/-! ## Texts put between fixed ones -/

section Splice

variable {a t z : List Char} {b : Char}

theorem startsWith_solid (ht : ∀ c ∈ t, isSolid c = true) (hne : t ≠ []) (v : List Char) :
    startsWith isBlank (t ++ v) = false := by
  obtain ⟨c, t, rfl⟩ := List.exists_cons_of_ne_nil hne
  have hc := ht c (by simp)
  rw [isSolid, Bool.and_eq_true, Bool.not_eq_true'] at hc
  exact hc.1

theorem parted_splice (ha : isCut a = true) (ht : ∀ c ∈ t, isSolid c = true) (hne : t ≠ []) (v : List Char) :
    Parted a (t ++ v) :=
  parted_of_isCut ha (Or.inl (startsWith_solid ht hne v))

/-- A solid text before a barrier, put behind a fixed one. -/
theorem closed_splice (ha : isCut a = true) (ht : ∀ c ∈ t, isSolid c = true) (hne : t ≠ [])
    (hb : isBarrier b = true) (hw : isWord b = false) (hz : Closed (b :: z)) : Closed (a ++ (t ++ b :: z)) := by
  have hbehind : Closed (t ++ b :: z) := hz.prepend fun w => parted_of_solid ht hb hw
  refine hbehind.prepend fun w => ?_
  rw [List.append_assoc]
  exact parted_splice ha ht hne _

theorem significant_splice (ha : isCut a = true) (ht : ∀ c ∈ t, isSolid c = true) (hne : t ≠ [])
    (hb : isBarrier b = true) (hw : isWord b = false) :
    significant (a ++ (t ++ b :: z)) = significant a ++ (significant t ++ significant (b :: z)) := by
  rw [(parted_splice ha ht hne _).significant, (parted_of_solid ht hb hw).significant]

end Splice

end ShaderLoom.Lexeme
