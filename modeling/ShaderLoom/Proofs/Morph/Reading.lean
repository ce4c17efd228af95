/-
  ShaderLoom.Proofs.Morph.Reading — the new declarations as the reader of the new text finds them.

  The lines of the new declarations are a text that starts with a word and has no brace
  (`Entry.core`). The text above them is read as it was, blanks and helpers aside, where it
  ends with them (`Anchor.Of.lexemes_glued`, `Found.Of.lexemes_above`).
  Below a declaration there is one other case (`Anchor.Of.lexemes_apart`): a comment that is open
  above, and that nothing closes before the helpers. If a star stands right before the entry point,
  the first slash of the helpers closes it, and the comment hides the new declarations.
-/

import ShaderLoom.Proofs.Morph.Order

namespace ShaderLoom.Morph

open ShaderLoom.Token ShaderLoom.Text
open ShaderLoom.Lexeme hiding significant isSignificant

/-! ## The lines of the new declarations -/

namespace Entry

/-- The lines of the new declarations. -/
def core (e : Entry) : List Char := (lines e.added).toList

theorem lower_eq (e : Entry) : e.lower = '\n' :: e.core := by
  have hall : ∀ ls ∈ uniformChoices, (String.join (ls.map ("\n" ++ ·))).toList = '\n' :: (lines ls).toList := by
    decide +kernel
  exact hall _ (newUniforms_mem _ _)

theorem core_start (e : Entry) : ∃ v, e.core = "uniform".toList ++ ' ' :: v := by
  have hall : ∀ ls ∈ uniformChoices, (lines ls).toList.take 8 = "uniform".toList ++ [' '] := by decide +kernel
  have htake : e.core.take 8 = _ := hall _ (newUniforms_mem _ _)
  refine ⟨e.core.drop 8, ?_⟩
  conv => lhs; rw [← List.take_append_drop 8 e.core, htake]
  simp

theorem core_no_brace (e : Entry) : ∀ c ∈ e.core, c ≠ '\x7b' ∧ c ≠ '\x7d' := by
  have hall : ∀ ls ∈ uniformChoices, (lines ls).toList.all (fun c => c != '\x7b' && c != '\x7d') = true := by
    decide +kernel
  have hcore := hall _ (newUniforms_mem (declaredNames e.statements) e.dialect)
  intro c hc
  simpa using List.all_eq_true.mp hcore c hc

end Entry

/-! ## Above the helpers -/

/-- A sealed text with blanks behind it is cut behind them. -/
theorem lexemes_of_isSealed {cs bs v : List Char} (h : isSealed cs = true) (hbs : ∀ c ∈ bs, isBlank c = true)
    (hne : bs ≠ []) (hv : startsWith isBlank v = false) :
    ∃ xs, joined xs = cs ++ bs ∧ xs.filter Lexeme.isSignificant = Lexeme.significant cs ∧
      lexemes (cs ++ (bs ++ v)) = xs ++ lexemes v := by
  obtain ⟨xs, b, rfl, hbar, hkind, hrow⟩ := row_of_isSealed h
  obtain ⟨c, bs, rfl⟩ := List.exists_cons_of_ne_nil hne
  have hxs : ∀ w, Row xs (b :: w) := fun w => hrow.behind hbar fun _ => by simp [Closes, blockEnd?]
  have hsig : Lexeme.significant (joined xs ++ [b]) =
      xs.filter Lexeme.isSignificant ++ Lexeme.significant [b] := (hxs []).significant_append
  have hcut : ∀ {ys : List Lexeme}, joined ys = b :: c :: bs → Row ys v →
      lexemes (joined xs ++ [b] ++ (c :: bs ++ v)) = xs ++ ys ++ lexemes v := by
    intro ys hys hrow
    have hlex := (hxs (c :: bs ++ v)).lexemes_append
    rw [← List.cons_append, ← hys, hrow.lexemes_append, hys] at hlex
    simpa using hlex
  rcases hkind with hplain | hblank
  · have hmark : Stands (.mark, [b]) (c :: bs ++ v) := ⟨b, [], rfl, first_of_plain hplain _⟩
    refine ⟨xs ++ [(.mark, [b]), (.space, c :: bs)], by simp, ?_,
      hcut (by simp) ⟨by simpa using hmark, by simpa using stands_blanks hbs hv, trivial⟩⟩
    rw [hsig, significant_plain hplain, List.filter_append]
    rfl
  · have hall : ∀ d ∈ b :: c :: bs, isBlank d = true := List.forall_mem_cons.mpr ⟨hblank, hbs⟩
    refine ⟨xs ++ [(.space, b :: c :: bs)], by simp, ?_, hcut (by simp) ⟨by simpa using stands_blanks hall hv, trivial⟩⟩
    rw [hsig, significant_blank hblank, List.filter_append]
    rfl

namespace Found

variable {f : Found} {source : String}

theorem Of.declarations_above (hs : f.statements = []) : f.declarations = f.entry.core ++ ['\n', '\n'] := by
  rw [declarations, if_pos hs, String.toList_append]
  rfl

theorem Of.lexemes_above (hf : f.Of source) (hs : f.statements = []) :
    lexemes (textOf f.front ++ (f.declarations ++ (f.helpers ++ f.swapped))) =
      f.front.map lexeme ++ lexemes (f.declarations ++ (f.helpers ++ f.swapped)) := by
  have := (hf.row_above hs hf.closes_helpers).lexemes_append
  rwa [joined_map_lexeme] at this

/-- The helpers above new declarations, with the blanks between them. -/
theorem lexemes_helpers (f : Found) (v : List Char) :
    ∃ hs, joined hs = f.helpers ++ ['\n'] ∧ hs.filter Lexeme.isSignificant = helperLexemes f.heading.dialect ∧
      lexemes (f.helpers ++ '\n' :: (f.entry.core ++ v)) = hs ++ lexemes (f.entry.core ++ v) := by
  obtain ⟨w, hw⟩ := f.entry.core_start
  have hsealed := keepsEntry_helpers f.heading.dialect
  simp only [keepsEntry, isHarmless, Bool.and_eq_true] at hsealed
  have hstart : startsWith isBlank (f.entry.core ++ v) = false := by rw [hw]; rfl
  have hblank : ∀ c ∈ ['\n', '\n'], isBlank c = true :=
    List.all_eq_true.mp (by decide : ['\n', '\n'].all isBlank = true)
  obtain ⟨hs, hjoined, hsig, hlex⟩ := lexemes_of_isSealed hsealed.1.1.1 hblank (by simp) hstart
  have hhelpers : f.helpers = f.heading.dialect.helpers.toList ++ ['\n'] := String.toList_append
  refine ⟨hs, by rw [hjoined, hhelpers]; simp, hsig, ?_⟩
  rw [← hlex, hhelpers]
  simp

end Found

namespace Anchor

variable {a : Anchor} {f : Found} {source : String}

theorem Of.row_source (ha : a.Of f) (hf : f.Of source) :
    Row (a.upTo.map lexeme) (';' :: (a.gap ++ (a.below ++ textOf f.onward))) ∧ a.semicolon.lexeme = mark ';' := by
  have hrow := hf.lexed
  rw [ha.front, List.append_cons, List.append_assoc] at hrow
  replace hrow := hrow.row
  rw [List.map_append] at hrow
  have hmark : a.semicolon.lexeme = mark ';' :=
    hrow.append_right.1.of_plain (by rw [Token.lexeme, ha.semicolon]; rfl) (by decide)
  refine ⟨?_, hmark⟩
  have := hrow.append_left
  simpa [hmark, mark, textOf_append, ha.text] using this

/-- The tokens up to the semicolon, before a text that closes no comment left open there. -/
theorem Of.row_head (ha : a.Of f) (hf : f.Of source) {w : List Char} (h : Row (a.upTo.map lexeme) (';' :: w)) :
    lexemes (textOf (a.upTo ++ [a.semicolon]) ++ w) = (a.upTo ++ [a.semicolon]).map lexeme ++ lexemes w := by
  obtain ⟨-, hmark⟩ := ha.row_source hf
  have hstands : Stands (mark ';') w := ⟨';', [], rfl, first_of_plain (by decide) _⟩
  have hrow : Row ((a.upTo ++ [a.semicolon]).map lexeme) w := by
    rw [List.map_append, List.map_cons, List.map_nil, hmark]
    exact Row.append (by simpa [mark] using h) ⟨by simpa using hstands, trivial⟩
  have := hrow.lexemes_append
  rwa [joined_map_lexeme] at this

theorem Of.lexemes_glued (ha : a.Of f) (hf : f.Of source) (hbelow : a.below = []) :
    ∃ hs, joined hs = f.helpers ++ ['\n'] ∧ hs.filter Lexeme.isSignificant = helperLexemes f.heading.dialect ∧
      lexemes (a.above ++ (f.helpers ++ (f.declarations ++ f.swapped))) =
        (a.upTo ++ [a.semicolon]).map lexeme ++ (hs ++ lexemes (f.entry.core ++ f.swapped)) := by
  obtain ⟨hs, hjoined, hsig, hlex⟩ := f.lexemes_helpers f.swapped
  refine ⟨hs, hjoined, hsig, ?_⟩
  have hrow : Row (a.upTo.map lexeme) (';' :: (f.helpers ++ (f.declarations ++ f.swapped))) := by
    refine (ha.row_source hf).1.behind (by decide) fun hc => ?_
    have hold := hf.closes_swapped (f.inert_declarations _ (f.inert_helpers _ hc))
    exact (hold.append_left _).append_left _
  rw [above, ha.gap_of_below_nil hbelow, List.append_nil, ha.row_head hf hrow, ha.declarations_eq, Entry.lower_eq,
    List.cons_append, hlex]

/-- The rest of the line and the line end behind it, above a word. -/
theorem Of.lexemes_gap (ha : a.Of f) {v : List Char} (hv : startsWith isBlank v = false) :
    ∃ gs, joined gs = a.gap ++ ['\n'] ∧ (∀ x ∈ gs, Lexeme.isSignificant x = false) ∧
      lexemes (a.gap ++ '\n' :: v) = gs ++ lexemes v := by
  have hgap : IsGap a.gap := by
    rcases ha.gap with hgap | ⟨hrest, -⟩
    · rw [hgap]
      decide
    · exact hrest.isGap
  obtain ⟨gs, hjoined, hgs, hlex⟩ := hgap.lexemes_line v
  have htake : v.takeWhile isBlank = [] := takeWhile_eq_nil.mpr hv
  have hdrop : v.dropWhile isBlank = v := by
    have := List.takeWhile_append_dropWhile (p := isBlank) (l := v)
    rwa [htake] at this
  exact ⟨gs, by rw [hjoined, htake], hgs, by rw [hlex, hdrop]⟩

/-- Below a declaration the text above the new ones is read as it was, or a comment that is open
above them is closed by the first slash of the helpers. -/
theorem Of.lexemes_apart (ha : a.Of f) (hf : f.Of source) (hbelow : a.below ≠ []) {v : List Char}
    (hv : f.helpers ++ f.swapped = '/' :: v) :
    (∃ gs, joined gs = a.gap ++ ['\n'] ∧ (∀ x ∈ gs, Lexeme.isSignificant x = false) ∧
      lexemes (a.above ++ (f.declarations ++ (a.below ++ '/' :: v))) =
        (a.upTo ++ [a.semicolon]).map lexeme ++ (gs ++ lexemes (f.entry.core ++ (a.below ++ '/' :: v)))) ∨
    ∃ pre post r, a.upTo.map lexeme = pre ++ (.mark, ['/']) :: post ∧ joined post = '*' :: r ∧
      a.below.getLast? = some '*' ∧
      lexemes (a.above ++ (f.declarations ++ (a.below ++ '/' :: v))) = pre ++ (.comment, '/' :: '*' :: (r ++
        ';' :: (a.gap ++ '\n' :: (f.entry.core ++ (a.below ++ ['/']))))) :: lexemes v := by
  obtain ⟨hsource, hmark⟩ := ha.row_source hf
  obtain ⟨w, hw⟩ := f.entry.core_start
  rw [ha.declarations_eq, Entry.lower_eq, above, List.append_assoc, List.cons_append]
  rcases hsource.or_opened (d := ';') (w := a.gap ++ '\n' :: (f.entry.core ++ (a.below ++ '/' :: v)))
    (by decide) (by decide) with hrow | ⟨pre, post, hopened⟩
  · left
    obtain ⟨gs, hjoined, hgs, hlex⟩ :=
      ha.lexemes_gap (v := f.entry.core ++ (a.below ++ '/' :: v)) (by rw [hw]; rfl)
    exact ⟨gs, hjoined, hgs, by rw [ha.row_head hf hrow, hlex]⟩
  · right
    obtain ⟨r, hr, hopen, hclosed⟩ := hopened.block hsource (by decide) (by decide)
    have hslash : ¬Closes ('/' :: v) := by
      intro hc
      have hold := hf.closes_helpers (hv ▸ hc)
      exact hopen (by simpa using (((hold.append_left a.below).append_left a.gap).append_left [';']).append_left r)
    -- neither the rest of the source up to the entry point nor the new declarations close the comment
    have hinert : ¬Closes (r ++ ';' :: (a.gap ++ '\n' :: (f.entry.core ++ a.below))) := by
      intro hc
      refine hopen ?_
      have : Closes ((r ++ ';' :: a.gap) ++ (a.below ++ textOf f.onward)) := by
        refine Closes.append_mono (w := f.declarations ++ a.below) (fun hc => ?_) ?_ _ (by
          simpa [ha.declarations_eq, Entry.lower_eq] using hc)
        · exact (f.inert_declarations _ hc).append_right _
        · rw [ha.declarations_eq, Entry.lower_eq]
          simp
      simpa using this
    have hcut : r ++ ';' :: (a.gap ++ '\n' :: (f.entry.core ++ (a.below ++ '/' :: v))) =
        (r ++ ';' :: (a.gap ++ '\n' :: (f.entry.core ++ a.below))) ++ '/' :: v := by simp
    rw [hcut] at hclosed
    obtain ⟨hstar, hend⟩ := closed_by_slash hinert hclosed hslash
    refine ⟨pre, post, r, hopened.cut, hr, ?_, ?_⟩
    · have hlast : (r ++ ';' :: (a.gap ++ '\n' :: (f.entry.core ++ a.below))).getLast? = a.below.getLast? := by
        have : r ++ ';' :: (a.gap ++ '\n' :: (f.entry.core ++ a.below)) =
            (r ++ ';' :: (a.gap ++ '\n' :: f.entry.core)) ++ a.below := by simp
        rw [this, List.getLast?_append, List.getLast?_eq_some_getLast hbelow]
        rfl
      rw [← hlast, hstar]
    · have hblock := lexemes_block (show blockEnd? ((r ++ ';' :: (a.gap ++ '\n' :: (f.entry.core ++ a.below)) ++ ['/']) ++ v) =
        some (r ++ ';' :: (a.gap ++ '\n' :: (f.entry.core ++ a.below)) ++ ['/']) by simpa using hend)
      have hlex := hopened.lexemes_append
      rw [joined_map_lexeme, hr] at hlex
      have hsemicolon : textOf (a.upTo ++ [a.semicolon]) = textOf a.upTo ++ [';'] := by
        rw [textOf_append, textOf_cons, textOf_nil, ha.semicolon]
        rfl
      rw [hsemicolon]
      simp only [List.append_assoc, List.cons_append, List.nil_append] at hlex hblock ⊢
      rw [hlex, hblock]

end Anchor

end ShaderLoom.Morph
