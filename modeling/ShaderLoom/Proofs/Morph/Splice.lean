/-
  ShaderLoom.Proofs.Morph.Splice — the text that the pass makes, read again.

  When a blank stands before the entry point, the new text has the lexemes of the old one with the
  declarations, the helpers and the swapped arguments spliced in, with no declaration to go below
  (`significant_above_made`) and with one (`significant_apart_made`). Without that blank the helpers
  may end a comment that was open, but the lexeme `u_morphProgress` is there all the same
  (`progress_of_made`): if something behind the entry point ends a comment, none was open before it;
  if nothing does, the text behind the helpers is read as if it stood alone.
-/

import ShaderLoom.Proofs.Morph.Anchor
import ShaderLoom.Proofs.Morph.Relex

namespace ShaderLoom.Morph

open ShaderLoom.Token ShaderLoom.Text
open ShaderLoom.Lexeme hiding significant isSignificant

namespace Found

/-- The tokens from the entry point on. -/
def onward (f : Found) : List Token := Cut.tokens f.cuts ++ f.tail

def lexemeSwaps (f : Found) : List (Swap Lexeme) := f.cuts.map (Cut.lexemeSwap f.heading.name.text)

/-- The lexemes from the entry point on, with the arguments swapped. -/
def newLexemes (f : Found) : List Lexeme := Swap.after f.lexemeSwaps ++ (significant f.tail).map lexeme

def addedLexemes (f : Found) : List Lexeme := uniformLexemes (declaredNames f.statements) f.heading.dialect

/-! ## The parts of the new text -/

theorem significant_declarations (f : Found) (v : List Char) :
    Lexeme.significant (f.declarations ++ v) = f.addedLexemes ++ Lexeme.significant v := by
  obtain ⟨habove, hbelow⟩ := Morph.significant_declarations (declaredNames f.statements) f.heading.dialect v
  unfold declarations
  split
  · exact habove
  · exact hbelow

theorem inert_declarations (f : Found) : Inert f.declarations := by
  obtain ⟨habove, hbelow⟩ := Morph.inert_declarations (declaredNames f.statements) f.heading.dialect
  unfold declarations
  split
  · exact habove
  · exact hbelow

/-- Above the helpers the declarations start a word, below another one a line. -/
theorem declarations_start (f : Found) :
    ∃ cs, f.declarations = (if f.statements = [] then 'u' else '\n') :: cs := by
  obtain ⟨habove, hbelow⟩ := head?_declarations (declaredNames f.statements) f.heading.dialect
  unfold declarations
  split
  · exact List.head?_eq_some_iff.mp habove
  · exact List.head?_eq_some_iff.mp hbelow

theorem significant_helpers (f : Found) (v : List Char) :
    Lexeme.significant (f.helpers ++ v) = helperLexemes f.heading.dialect ++ Lexeme.significant v :=
  Morph.significant_helpers f.heading.dialect v

theorem inert_helpers (f : Found) : Inert f.helpers := Morph.inert_helpers f.heading.dialect

variable {f : Found} {source : String}

theorem Of.lexed (h : f.Of source) : Lexed (f.front ++ f.onward) := by
  have := lexed_tokenize source
  rwa [h.tokens] at this

theorem Of.closes_swapped (h : f.Of source) (hc : Closes f.swapped) : Closes (textOf f.onward) := by
  rw [onward, textOf_append]
  exact closes_of_swapped h.entry.isName hc

theorem Of.significant_swapped (h : f.Of source) : Lexeme.significant f.swapped = f.newLexemes :=
  Morph.significant_swapped h.entry.isName h.lexed.append_right h.sound

/-- The entry point starts with a name. -/
theorem Of.onward_start (h : f.Of source) : ∃ c cs, textOf f.onward = c :: cs ∧ isNameStart c = true := by
  obtain ⟨more, hmore⟩ := h.start
  obtain ⟨c, cs, hstart, hc⟩ := startsWith_vectorType h.entry.valid.1
  exact ⟨c, cs ++ textOf more, by rw [onward, hmore, textOf_cons, hstart]; rfl, hc⟩

theorem Of.not_endsLine (h : f.Of source) : ¬ endsLine (textOf f.onward) := by
  obtain ⟨c, cs, hcs, hc⟩ := h.onward_start
  intro hend
  obtain rfl : c = '\n' := by simpa [endsLine, hcs] using hend
  exact absurd hc (by decide)

/-- The tokens before the entry point, with a blank behind them. -/
theorem Of.significant_front (h : f.Of source) (hblank : ∀ c ∈ (textOf f.front).getLast?, isBlank c = true)
    {w : List Char} (hw : Closes w → Closes (textOf f.onward)) :
    Lexeme.significant (textOf f.front ++ w) = f.before.map lexeme ++ Lexeme.significant w := by
  rw [← joined_map_lexeme] at hblank ⊢
  rw [h.lexed.row.significant_spaced h.not_endsLine hblank hw, filter_map_lexeme]
  rfl

theorem Of.closes_helpers (h : f.Of source) (hc : Closes (f.helpers ++ f.swapped)) :
    Closes (textOf f.onward) :=
  h.closes_swapped (f.inert_helpers _ hc)

/-- The tokens before the entry point, with the declarations right behind them: both start a word. -/
theorem Of.row_above (h : f.Of source) (hs : f.statements = []) {w : List Char}
    (hw : Closes w → Closes (textOf f.onward)) : Row (f.front.map lexeme) (f.declarations ++ w) := by
  obtain ⟨cs, hcs⟩ := f.declarations_start
  obtain ⟨c, t, ht, hc⟩ := h.onward_start
  rw [if_pos hs] at hcs
  have hinert := f.inert_declarations w
  rw [hcs, List.cons_append] at hinert ⊢
  refine h.lexed.row.transport (.of_barrier (by decide) (fun h => absurd h (by decide)) (fun _ => ?_)
    fun hclosed => hw (hinert (closes_cons.mpr (Or.inr hclosed)))) fun _ _ _ hend => absurd hend h.not_endsLine
  rw [ht]
  exact isWord_of_nameStart hc

theorem Of.significant_above (h : f.Of source) (hs : f.statements = []) {w : List Char}
    (hw : Closes w → Closes (textOf f.onward)) :
    Lexeme.significant (textOf f.front ++ (f.declarations ++ w)) =
      f.before.map lexeme ++ (f.addedLexemes ++ Lexeme.significant w) := by
  rw [significant_row (h.row_above hs hw), f.significant_declarations]
  rfl

end Found

/-! ## The anchor -/

namespace Anchor

variable {a : Anchor} {f : Found} {source : String}

theorem Of.statements_ne_nil (h : a.Of f) : f.statements ≠ [] := by
  obtain ⟨s, hs, -⟩ := h.last
  intro hnil
  rw [hnil] at hs
  cases hs

/-- The significant tokens up to the anchor. -/
def head (a : Anchor) : List Token := significant (a.upTo ++ [a.semicolon])

/-- The significant tokens between the anchor and the entry point. -/
def between (a : Anchor) : List Token := significant a.behind

theorem Of.before_eq (h : a.Of f) : f.before = a.head ++ a.between := by
  rw [Found.before, h.front, head, between, List.append_cons, significant_append]

/-- The rest of the line leaves no trace before a text that it does not run into. -/
theorem Of.significant_gap (h : a.Of f) {v : List Char} (hv : startsWith (· == '\n') v = true) :
    Lexeme.significant (a.gap ++ v) = Lexeme.significant v := by
  rcases h.gap with hgap | ⟨hrest, -⟩
  · rw [hgap]
    rfl
  · refine hrest.significant_append ?_
    cases v with
    | nil => rfl
    | cons c v =>
      obtain rfl : c = '\n' := by simpa using hv
      rfl

theorem Of.gap_of_below_nil (h : a.Of f) (hbelow : a.below = []) : a.gap = [] := by
  rcases h.gap with hgap | ⟨-, hstart⟩
  · exact hgap
  · rw [hbelow] at hstart
    cases hstart

/-- The text up to the semicolon of the anchor is read as before when the text behind it closes no
comment that was not closed before. -/
theorem Of.significant_head (h : a.Of f) (hf : f.Of source) {w : List Char}
    (hw : Closes w → Closes (a.gap ++ (a.below ++ textOf f.onward))) :
    Lexeme.significant (textOf (a.upTo ++ [a.semicolon]) ++ w) = a.head.map lexeme ++ Lexeme.significant w := by
  have hlex := hf.lexed
  rw [h.front, List.append_cons, List.append_assoc] at hlex
  refine significant_guarded _ hlex.row (b := ';') (by rw [h.semicolon]; rfl) (by decide) (by decide)
    fun hc => ?_
  rw [textOf_append, h.text, List.append_assoc]
  exact hw hc

/-- The rest of the line below the semicolon leaves no trace. -/
theorem Of.significant_behind (h : a.Of f) (hbelow : a.below ≠ []) (w : List Char) :
    Lexeme.significant (textOf a.behind ++ w) = Lexeme.significant (a.below ++ w) := by
  rw [h.text, List.append_assoc]
  rcases h.gap with hgap | ⟨-, hstart⟩
  · rw [hgap]
    rfl
  · refine h.significant_gap ?_
    cases hb : a.below with
    | nil => exact absurd hb hbelow
    | cons c cs => rwa [hb] at hstart

/-- The tokens behind the semicolon, read off the text up to the entry point. -/
theorem Of.row_behind (h : a.Of f) (hf : f.Of source) : Row (a.behind.map lexeme) (textOf f.onward) := by
  have hlex := hf.lexed
  rw [h.front, List.append_cons, List.append_assoc] at hlex
  exact hlex.append_right.row

/-- The text between the anchor and the entry point, with a blank behind it. -/
theorem Of.significant_between (h : a.Of f) (hf : f.Of source) (hbelow : a.below ≠ [])
    (hblank : ∀ c ∈ a.below.getLast?, isBlank c = true) {w : List Char}
    (hw : Closes w → Closes (textOf f.onward)) :
    Lexeme.significant (a.below ++ w) = a.between.map lexeme ++ Lexeme.significant w := by
  have hlast : ∀ c ∈ (textOf a.behind).getLast?, isBlank c = true := by
    rw [h.text, List.getLast?_append, List.getLast?_eq_some_getLast hbelow]
    rw [List.getLast?_eq_some_getLast hbelow] at hblank
    exact hblank
  rw [← h.significant_behind hbelow]
  rw [← joined_map_lexeme] at hlast ⊢
  rw [(h.row_behind hf).significant_spaced hf.not_endsLine hlast hw, filter_map_lexeme]
  rfl

/-- The text with the declarations put in below the anchor, when what follows them closes no
comment that was not closed before. -/
theorem Of.significant_apart (h : a.Of f) (hf : f.Of source) {w : List Char}
    (hw : Closes (a.below ++ w) → Closes (a.below ++ textOf f.onward)) :
    Lexeme.significant (a.above ++ (f.declarations ++ (a.below ++ w))) =
      a.head.map lexeme ++ (f.addedLexemes ++ Lexeme.significant (a.below ++ w)) := by
  obtain ⟨cs, hcs⟩ := f.declarations_start
  rw [if_neg h.statements_ne_nil] at hcs
  have hcloses : Closes (a.gap ++ (f.declarations ++ (a.below ++ w))) →
      Closes (a.gap ++ (a.below ++ textOf f.onward)) := by
    refine Closes.append_mono (fun hc => hw (f.inert_declarations _ hc)) (fun hs => ?_) a.gap
    rw [hcs] at hs
    cases hs
  rw [above, List.append_assoc, h.significant_head hf hcloses, h.significant_gap (by rw [hcs]; rfl),
    f.significant_declarations]

end Anchor

/-! ## Behind a blank -/

theorem significant_above_made {f : Found} {source : String} (hf : f.Of source)
    (hblank : ∀ c ∈ (textOf f.front).getLast?, isBlank c = true) :
    Lexeme.significant (textOf f.front ++ (f.declarations ++ (f.helpers ++ f.swapped))) =
      f.before.map lexeme ++ (f.addedLexemes ++ (helperLexemes f.heading.dialect ++ f.newLexemes)) := by
  rw [hf.significant_front hblank fun hc => hf.closes_helpers (f.inert_declarations _ hc),
    f.significant_declarations, f.significant_helpers, hf.significant_swapped]

theorem significant_apart_made {f : Found} {source : String} (hf : f.Of source) {a : Anchor} (ha : a.Of f)
    (hbelow : a.below ≠ []) (hblank : ∀ c ∈ (textOf f.front).getLast?, isBlank c = true) :
    Lexeme.significant (a.above ++ (f.declarations ++ (a.below ++ (f.helpers ++ f.swapped)))) =
      a.head.map lexeme ++ (f.addedLexemes ++ (a.between.map lexeme ++
        (helperLexemes f.heading.dialect ++ f.newLexemes))) := by
  rw [ha.front_text, List.getLast?_append] at hblank
  replace hblank : ∀ c ∈ a.below.getLast?, isBlank c = true :=
    fun c hc => hblank c (by rw [Option.mem_def.mp hc]; rfl)
  -- the helpers start with a slash, but a blank stands before them
  have hspaced : Closes (a.below ++ (f.helpers ++ f.swapped)) → Closes (a.below ++ textOf f.onward) := by
    obtain ⟨t, b, ht⟩ := List.eq_nil_or_concat a.below |>.resolve_left hbelow
    rw [List.concat_eq_append] at ht
    have hb := (blank_spec (hblank b (by rw [ht, List.getLast?_concat]; rfl))).2.2
    rw [ht, List.append_assoc, List.append_assoc]
    refine Closes.append_mono (v := [b] ++ textOf f.onward) (fun hc => ?_) (by simp) t
    rw [List.singleton_append, closes_cons] at hc ⊢
    exact Or.inr (hf.closes_helpers (hc.resolve_left fun h => hb h.1))
  rw [ha.significant_apart hf hspaced, ha.significant_between hf hbelow hblank hf.closes_helpers,
    f.significant_helpers, hf.significant_swapped]

/-- With a blank right before it, an entry point is not glued to an anchor. -/
theorem not_glued {f : Found} {a : Anchor} (ha : a.Of f) (hbelow : a.below = [])
    (hblank : ∀ c ∈ (textOf f.front).getLast?, isBlank c = true) : False := by
  rw [ha.front_text, hbelow, List.append_nil, Anchor.above, ha.gap_of_below_nil hbelow,
    List.append_nil, textOf_append, textOf_cons, ha.semicolon, textOf_nil] at hblank
  exact absurd (hblank ';' (by simp)) (by decide)

/-! ## In every case -/

theorem progress_mem_newLexemes {f : Found} {source : String} (hf : f.Of source) :
    name "u_morphProgress" ∈ f.newLexemes := by
  obtain ⟨c, hc⟩ := List.exists_mem_of_ne_nil f.cuts hf.nonempty
  have hcall : name "u_morphProgress" ∈ callLexemes f.heading.name.text := by simp [callLexemes]
  have hnew : name "u_morphProgress" ∈ c.newLexemes f.heading.name.text := by
    unfold Cut.newLexemes
    split <;> simp [hcall]
  refine List.mem_append_left _ (List.mem_flatMap.mpr ⟨_, List.mem_map_of_mem hc, ?_⟩)
  exact List.mem_append_right _ hnew

theorem progress_mem_addedLexemes (f : Found) : name "u_morphProgress" ∈ f.addedLexemes :=
  (uniformLexemes_spec _ _).2.2

/-- Where the source behind the insertions closes a comment of its own, the declarations are read. -/
theorem progress_of_closes {f : Found} {source : String} (hf : f.Of source) {made : List Char}
    (hmade : Made f made)
    (hcloses : Closes (textOf f.onward)) : name "u_morphProgress" ∈ Lexeme.significant made := by
  have hgap : ∀ a : Anchor, Closes (a.gap ++ (a.below ++ textOf f.onward)) := fun a =>
    (hcloses.append_left _).append_left _
  have hadded := progress_mem_addedLexemes f
  cases hmade with
  | above hs =>
    rw [hf.significant_above hs fun _ => hcloses]
    exact List.mem_append_right _ (List.mem_append_left _ hadded)
  | @apart a ha hbelow =>
    rw [ha.significant_apart hf fun _ => hcloses.append_left _]
    exact List.mem_append_right _ (List.mem_append_left _ hadded)
  | @glued a ha hbelow =>
    rw [Anchor.above, ha.gap_of_below_nil hbelow, List.append_nil, ha.significant_head hf fun _ => hgap a,
      f.significant_helpers, f.significant_declarations]
    exact List.mem_append_right _ (List.mem_append_right _ (List.mem_append_left _ hadded))

/-- Where it closes none, what follows the last line of the helpers is read as if it stood alone. -/
theorem progress_of_not_closes {f : Found} {source : String} (hf : f.Of source) {made : List Char}
    (hmade : Made f made)
    (hcloses : ¬Closes (textOf f.onward)) : name "u_morphProgress" ∈ Lexeme.significant made := by
  obtain ⟨hs, hhelpers⟩ : ∃ hs, f.helpers = hs ++ ['\n'] := ⟨_, String.toList_append⟩
  have hswapped : ¬Closes f.swapped := fun hc => hcloses (hf.closes_swapped hc)
  have hresync : ∀ pre, name "u_morphProgress" ∈ Lexeme.significant (pre ++ (f.helpers ++ f.swapped)) := by
    intro pre
    obtain ⟨l, hl⟩ := resync hswapped (pre ++ hs)
    have hcut : pre ++ (f.helpers ++ f.swapped) = pre ++ hs ++ '\n' :: f.swapped := by simp [hhelpers]
    rw [hcut, hl, hf.significant_swapped]
    exact List.mem_append_right _ (progress_mem_newLexemes hf)
  cases hmade with
  | above hs =>
    rw [← List.append_assoc]
    exact hresync _
  | @apart a ha hbelow =>
    have hcut : a.above ++ (f.declarations ++ (a.below ++ (f.helpers ++ f.swapped))) =
        a.above ++ f.declarations ++ a.below ++ (f.helpers ++ f.swapped) := by simp
    rw [hcut]
    exact hresync _
  | @glued a ha hbelow =>
    obtain ⟨l, hl⟩ := resync (fun hc => hswapped (f.inert_declarations _ hc)) (a.above ++ hs)
    have hcut : a.above ++ (f.helpers ++ (f.declarations ++ f.swapped)) =
        a.above ++ hs ++ '\n' :: (f.declarations ++ f.swapped) := by simp [hhelpers]
    rw [hcut, hl, f.significant_declarations]
    exact List.mem_append_right _ (List.mem_append_left _ (progress_mem_addedLexemes f))

/-- Whatever becomes of the rest, the new text has the lexeme that tells that it is made. -/
theorem progress_of_made {f : Found} {source : String} (hf : f.Of source) {made : List Char}
    (hmade : Made f made) :
    name "u_morphProgress" ∈ Lexeme.significant made := by
  by_cases hcloses : Closes (textOf f.onward)
  · exact progress_of_closes hf hmade hcloses
  · exact progress_of_not_closes hf hmade hcloses

end ShaderLoom.Morph
