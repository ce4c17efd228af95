/-
  ShaderLoom.Proofs.Morph.Redeclared — what the new text declares.

  The significant lexemes of the new text are those of the source with the new declarations and the
  helpers put in (`NewRow`). So its file scope declares what the source does and the new names, these
  only where the semicolon above them is at file scope; where a comment comes to hide a part of the row,
  no more than that (`NewRow.names`).

  Of the new names one is looked for in the whole source, one among all names of the declarations
  before the entry point, and one not at all. So the three names are declared once each exactly when
  those two tests would have answered right (`wrap_scope_names`).
-/

import Mathlib.Data.List.Nodup
import Mathlib.Data.List.Perm.Subperm
import ShaderLoom.Proofs.Morph.Declared
import ShaderLoom.Proofs.Morph.Scope

namespace ShaderLoom.Morph

open ShaderLoom.Token ShaderLoom.Text
open ShaderLoom.Lexeme hiding significant isSignificant

/-- The names that a morphing shader declares. -/
def morphNames : List String := ["u_resolution", "u_morphProgress", "u_morphDirection"]

namespace Entry

/-- The names of the new declarations. -/
def addedNames (e : Entry) : List String :=
  (if (declaredNames e.statements).contains "u_resolution" then [] else ["u_resolution"]) ++
    ["u_morphProgress", "u_morphDirection"]

end Entry

/-! ## The rows put in -/

/-- The lexemes of the helpers when a comment takes in their first slash. -/
def slashedLexemes (d : Dialect) : List Lexeme := Lexeme.significant d.helpers.toList.tail

/-- A row that keeps the depth and shares no declaration with a row before or behind it. -/
structure Apart (xs : List Lexeme) : Prop where
  balanced : through 0 xs = some 0
  last : ∀ x ∈ xs.getLast?, x.1 ≠ .name
  long : 3 ≤ xs.length
  first : ∀ x ∈ xs.take 3, x ≠ mark ';'

instance (xs : List Lexeme) : Decidable (Apart xs) :=
  decidable_of_iff (through 0 xs = some 0 ∧ (∀ x ∈ xs.getLast?, x.1 ≠ .name) ∧ 3 ≤ xs.length ∧
      ∀ x ∈ xs.take 3, x ≠ mark ';')
    ⟨fun h => ⟨h.1, h.2.1, h.2.2.1, h.2.2.2⟩, fun h => ⟨h.balanced, h.last, h.long, h.first⟩⟩

/-- Each part of a row with such a row in it declares its own names. -/
theorem Apart.declaredFrom {xs ys : List Lexeme} (h : Apart ys) {d e : Nat} (hxs : through d xs = some e)
    (zs : List Lexeme) : declaredFrom d (xs ++ (ys ++ zs)) =
      Morph.declaredFrom d xs ++ ((if e = 0 then Morph.declaredFrom 0 ys else []) ++ Morph.declaredFrom e zs) := by
  have hjoin : Unjoined xs (ys ++ zs) := .short (by rw [List.take_append_of_le_length h.long]; exact h.first)
  rw [declaredFrom_append hxs hjoin]
  refine congrArg _ ?_
  cases e with
  | zero =>
    rw [declaredFrom_append h.balanced (.last h.last)]
    rfl
  | succ e => simpa using declaredFrom_block h.balanced e zs

/-- Whether a text, and the text behind its first character, are rows that declare nothing. -/
def declaresNone (cs : List Char) : Bool :=
  [cs, cs.tail].all fun text =>
    let xs := (read 0 text).filter Lexeme.isSignificant
    decide (Apart xs) && declaredFrom 0 xs == []

set_option maxRecDepth 100000 in
theorem declaresNone_helpers (d : Dialect) : declaresNone d.helpers.toList = true :=
  decided_helpers (fun _ => declaresNone) ⟨_, String.toList_ofList, by decide +kernel, by decide +kernel⟩ d

theorem helpers_apart (d : Dialect) : (Apart (helperLexemes d) ∧ declaredFrom 0 (helperLexemes d) = []) ∧
    Apart (slashedLexemes d) ∧ declaredFrom 0 (slashedLexemes d) = [] := by
  have h := declaresNone_helpers d
  simp only [declaresNone, List.all_cons, List.all_nil, Bool.and_true, Bool.and_eq_true, decide_eq_true_eq,
    beq_iff_eq, ← lexemes_eq_read] at h
  exact h

theorem uniformLexemes_names (declared : List String) (d : Dialect) :
    Apart (uniformLexemes declared d) ∧ declaredFrom 0 (uniformLexemes declared d) =
      (if declared.contains "u_resolution" then [] else ["u_resolution"]) ++ ["u_morphProgress", "u_morphDirection"] := by
  unfold uniformLexemes newUniforms
  split <;> cases d <;> decide +kernel

namespace Found

theorem added_apart (f : Found) : Apart f.addedLexemes ∧ declaredFrom 0 f.addedLexemes = f.entry.addedNames :=
  uniformLexemes_names (declaredNames f.statements) f.heading.dialect

/-- The helpers with a slash before them, and without their first one. -/
theorem exists_slash (f : Found) : ∃ v, f.helpers ++ f.swapped = '/' :: v ∧
    Lexeme.significant ('/' :: '/' :: v) = Lexeme.significant ('/' :: v) ∧
      Lexeme.significant v = slashedLexemes f.heading.dialect ++ Lexeme.significant f.swapped := by
  obtain ⟨t, ht, hsealed⟩ := exists_slashes f.heading.dialect
  have hhelpers : f.helpers = '/' :: '/' :: (t ++ ['\n']) := by
    rw [helpers, String.toList_append, ht]
    rfl
  refine ⟨'/' :: (t ++ '\n' :: f.swapped), by rw [hhelpers]; simp, ?_, ?_⟩
  · rw [significant_line, significant_line, List.dropWhile_cons_of_pos (by decide)]
  · rw [slashedLexemes, ht, List.tail_cons, ← List.cons_append, hsealed, significant_blank (c := '\n') (by decide)]

end Found

/-! ## The new row -/

/-- The significant lexemes of the new text, over those of the source before the entry point. -/
inductive NewRow (f : Found) (source : String) : List Lexeme → Prop
  | apart {A B C : List Lexeme} : f.before.map lexeme = A ++ B → through 0 A = some f.entry.depth →
      (B = [] ∨ A.getLast? = some (mark ';')) → (C = B ∨ B = C ++ [mark '/']) →
      NewRow f source (A ++ (f.addedLexemes ++ (C ++ (helperLexemes f.heading.dialect ++ f.newLexemes))))
  | glued : f.entry.depth = 0 →
      NewRow f source (f.before.map lexeme ++ (helperLexemes f.heading.dialect ++ (f.addedLexemes ++ f.newLexemes)))
  /-- The first slash of the helpers ends a comment that opens behind the new declarations. -/
  | late {A B P Q : List Lexeme} : f.entry.BehindStar source → f.before.map lexeme = A ++ B →
      through 0 A = some f.entry.depth → A.getLast? = some (mark ';') → B = P ++ mark '/' :: Q →
      NewRow f source (A ++ (f.addedLexemes ++ (P ++ (slashedLexemes f.heading.dialect ++ f.newLexemes))))
  /-- It ends one that opens above them. -/
  | early {P Q : List Lexeme} : f.entry.BehindStar source → f.before.map lexeme = P ++ mark '/' :: Q →
      NewRow f source (P ++ (slashedLexemes f.heading.dialect ++ f.newLexemes))

section Row

variable {f : Found} {source : String} {a : Anchor} {made : List Char}

theorem Anchor.Of.head_last (ha : a.Of f) (hf : f.Of source) : (a.head.map lexeme).getLast? = some (mark ';') := by
  rw [List.getLast?_map, ha.head_getLast?, Option.map_some, (ha.row_source hf).2]

theorem Anchor.Of.newRow_glued (ha : a.Of f) (hf : f.Of source) (hbelow : a.below = []) :
    NewRow f source (Lexeme.significant (a.above ++ (f.helpers ++ (f.declarations ++ f.swapped)))) := by
  have hcloses : Closes (f.helpers ++ (f.declarations ++ f.swapped)) → Closes (a.gap ++ (a.below ++ textOf f.onward)) :=
    fun hc => ((hf.closes_swapped (f.inert_declarations _ (f.inert_helpers _ hc))).append_left _).append_left _
  have hbetween : a.between = [] := by
    have hnil : textOf a.behind = [] := by rw [ha.text, hbelow, ha.gap_of_below_nil hbelow]; rfl
    have hbehind : a.behind = [] := by
      cases hb : a.behind with
      | nil => rfl
      | cons t ts =>
        have hne := (ha.row_behind hf).ne_nil t.lexeme (by simp [hb])
        rw [hb, textOf_cons, List.append_eq_nil_iff] at hnil
        exact absurd hnil.1 hne
    rw [Anchor.between, hbehind]
    rfl
  have hbefore : f.before = a.head := by rw [ha.before_eq, hbetween, List.append_nil]
  rw [Anchor.above, ha.gap_of_below_nil hbelow, List.append_nil, ha.significant_head hf hcloses, f.significant_helpers,
    f.significant_declarations, hf.significant_swapped, ← hbefore]
  have hdepth := ha.through_head hf
  rw [← hbefore, hf.entry.depth] at hdepth
  exact .glued (Option.some.inj hdepth).symm

theorem Anchor.Of.newRow_apart (ha : a.Of f) (hf : f.Of source) (hbelow : a.below ≠ []) :
    NewRow f source (Lexeme.significant (a.above ++ (f.declarations ++ (a.below ++ (f.helpers ++ f.swapped))))) := by
  obtain ⟨v, hv, hline, hblock⟩ := f.exists_slash
  have hbefore : f.before.map lexeme = a.head.map lexeme ++ a.between.map lexeme := by rw [ha.before_eq, List.map_append]
  have hlast := ha.head_last hf
  have hdepth := ha.through_head hf
  have hcore : ∀ w, Lexeme.significant (f.entry.core ++ w) = f.addedLexemes ++ Lexeme.significant w := by
    intro w
    rw [← f.significant_declarations, ha.declarations_eq, Entry.lower_eq, List.cons_append, significant_blank (by decide)]
  rw [hv]
  rcases ha.lexemes_apart hf hbelow hv with ⟨gs, -, hgs, hlex⟩ | ⟨P, Q, r, hcut, -, hstar, hlex⟩
  · rw [Lexeme.significant, hlex, List.filter_append, List.filter_append, filter_map_lexeme, filter_insignificant hgs,
      List.nil_append]
    change NewRow f source (a.head.map lexeme ++ Lexeme.significant _)
    rw [hcore, ← ha.significant_behind hbelow, ← joined_map_lexeme]
    have hcloses : Closes ('/' :: v) → Closes (textOf f.onward) := fun hc => hf.closes_helpers (hv ▸ hc)
    have hfilter : (a.behind.map lexeme).filter Lexeme.isSignificant = a.between.map lexeme := filter_map_lexeme _
    have hrow := (ha.row_behind hf).before_slash hf.not_endsLine hcloses
    generalize Lexeme.significant (joined (a.behind.map lexeme) ++ '/' :: v) = row at hrow
    cases hrow with
    | apart =>
      rw [hfilter, ← hv, f.significant_helpers, hf.significant_swapped]
      exact .apart hbefore hdepth (Or.inr hlast) (Or.inl rfl)
    | line hcut =>
      rw [hline, ← hv, f.significant_helpers, hf.significant_swapped]
      refine .apart hbefore hdepth (Or.inr hlast) (Or.inr ?_)
      rw [← hfilter, hcut, List.filter_append]
      rfl
    | @block P Q hcut hstar =>
      rw [hblock, hf.significant_swapped]
      refine .late (ha.behindStar hf ?_) hbefore hdepth hlast (Q := Q.filter Lexeme.isSignificant) ?_
      · rw [joined_map_lexeme, ha.text, List.getLast?_append, List.getLast?_eq_some_getLast hbelow] at hstar
        rw [List.getLast?_eq_some_getLast hbelow]
        exact hstar
      · rw [← hfilter, hcut, List.filter_append]
        rfl
  · rw [Lexeme.significant, hlex, List.filter_append]
    change NewRow f source (_ ++ Lexeme.significant v)
    rw [hblock, hf.significant_swapped]
    refine .early (ha.behindStar hf hstar) (Q := Q.filter Lexeme.isSignificant ++ mark ';' :: a.between.map lexeme) ?_
    have hhead : a.head.map lexeme = ((a.upTo ++ [a.semicolon]).map lexeme).filter Lexeme.isSignificant :=
      (filter_map_lexeme _).symm
    rw [hbefore, hhead, List.map_append, List.map_cons, List.map_nil, (ha.row_source hf).2, hcut]
    rw [List.filter_append, List.filter_append, List.filter_cons_of_pos rfl, List.append_assoc, List.append_assoc,
      List.cons_append]
    rfl

theorem exists_newRow (hf : f.Of source) (hmade : MadeAt f source made) : NewRow f source (Lexeme.significant made) := by
  cases hmade with
  | above hs =>
    rw [hf.significant_above hs fun hc => hf.closes_helpers hc, f.significant_helpers, hf.significant_swapped]
    refine .apart (A := f.before.map lexeme) (B := []) (C := []) (by simp) ?_ (Or.inl rfl) (Or.inl rfl)
    rw [Found.depth_of_none hs]
    exact hf.entry.depth
  | apart ha _ hbelow => exact ha.newRow_apart hf hbelow
  | glued ha _ hbelow => exact ha.newRow_glued hf hbelow

end Row

/-! ## The names -/

theorem declaredFrom_sublist {xs : List Lexeme} (h : through 0 xs = some 0) (d : Nat) :
    (declaredFrom d xs).Sublist (declaredFrom 0 xs) := by
  cases d with
  | zero => exact List.Sublist.refl _
  | succ d =>
    have hnil := declaredFrom_block h d []
    rw [List.append_nil, Nat.zero_add] at hnil
    rw [hnil]
    exact List.nil_sublist _

/-- The helpers declare nothing. -/
theorem declaredFrom_helpers {xs ys : List Lexeme} (h : Apart ys ∧ declaredFrom 0 ys = []) {d e : Nat}
    (hxs : through d xs = some e) (zs : List Lexeme) :
    declaredFrom d (xs ++ (ys ++ zs)) = declaredFrom d xs ++ declaredFrom e zs := by
  rw [h.1.declaredFrom hxs, h.2, ite_self, List.nil_append]

theorem Found.declaredFrom_added (f : Found) {xs : List Lexeme} {d e : Nat} (hxs : through d xs = some e)
    (zs : List Lexeme) : declaredFrom d (xs ++ (f.addedLexemes ++ zs)) =
      declaredFrom d xs ++ ((if e = 0 then f.entry.addedNames else []) ++ declaredFrom e zs) := by
  rw [f.added_apart.1.declaredFrom hxs, f.added_apart.2]

namespace Found.Of

variable {f : Found} {source : String}

theorem significant_source (hf : f.Of source) :
    Lexeme.significant source.toList = f.before.map lexeme ++ (significant f.onward).map lexeme := by
  rw [← significant_tokens, hf.lexemes_eq, lexemeSwaps, Cut.before_lexemeSwaps, onward, significant_append,
    List.map_append]

theorem through_newLexemes (hf : f.Of source) : through 0 f.newLexemes = some 0 := by
  have hbal := hf.balanced
  rw [hf.lexemes_eq, through_append_of hf.entry.depth] at hbal
  exact (through_lexemeSwaps hf.entry.isName f.cuts _ 0).trans hbal

/-- The names of the source before the entry point and from it on. -/
theorem scopeNames_eq (hf : f.Of source) :
    scopeNames source = declaredFrom 0 (f.before.map lexeme) ++ declaredFrom 0 f.newLexemes := by
  rw [scopeNames, hf.significant_source, hf.declaredFrom_newLexemes, onward, hf.significant_entry, List.map_append]
  refine declaredFrom_append hf.entry.depth (.short fun y hy heq => ?_)
  rw [List.take_append_of_le_length (by simp [Heading.tokens])] at hy
  obtain ⟨t, ht, rfl⟩ := List.mem_map.mp (List.mem_of_mem_take hy)
  exact Heading.text_ne hf.entry.valid hf.entry.isName (by decide) (by decide) t ht
    (String.toList_inj.mp (congrArg Prod.snd heq) : t.text = ";")

end Found.Of

/-! ## What the new row declares -/

section Row

variable {f : Found} {source : String} {row : List Lexeme}

/-- The names of the source, cut where the new declarations go. -/
theorem Found.Of.scopeNames_cut (hf : f.Of source) {A B : List Lexeme} (hbefore : f.before.map lexeme = A ++ B)
    (hA : through 0 A = some f.entry.depth) (hcut : B = [] ∨ A.getLast? = some (mark ';')) :
    through f.entry.depth B = some 0 ∧
      scopeNames source = declaredFrom 0 A ++ (declaredFrom f.entry.depth B ++ declaredFrom 0 f.newLexemes) := by
  have hdepth := hf.entry.depth
  rw [hbefore, through_append_of hA] at hdepth
  refine ⟨hdepth, ?_⟩
  have hjoin : Unjoined A B := by
    rcases hcut with rfl | hlast
    · exact .short (by simp)
    · exact .last (by rw [hlast]; simp [mark])
  rw [hf.scopeNames_eq, hbefore, declaredFrom_append hA hjoin, List.append_assoc]

/-- A slash at the end of a row is in no declaration. -/
theorem declaredFrom_slash {C : List Lexeme} {d : Nat} (h : through d (C ++ [mark '/']) = some 0) :
    through d C = some 0 ∧ declaredFrom d (C ++ [mark '/']) = declaredFrom d C := by
  rw [through_append] at h
  obtain ⟨e, he, hslash⟩ := Option.bind_eq_some_iff.mp h
  obtain rfl : e = 0 := Option.some.inj hslash
  refine ⟨he, ?_⟩
  rw [declaredFrom_append he (.first (by simp [mark]))]
  exact List.append_nil _

/-- Up to a slash a row declares no more than in all. -/
theorem declaredFrom_up_to {P Q : List Lexeme} {d : Nat} (h : through d (P ++ mark '/' :: Q) = some 0) :
    ∃ e, through d P = some e ∧ (declaredFrom d P).Sublist (declaredFrom d (P ++ mark '/' :: Q)) := by
  rw [through_append] at h
  obtain ⟨e, he, -⟩ := Option.bind_eq_some_iff.mp h
  refine ⟨e, he, ?_⟩
  rw [declaredFrom_append he (.first (by simp [mark]))]
  exact List.sublist_append_left _ _

/-- The new names come to those of the source, or a comment has come to hide some. -/
theorem NewRow.names (h : NewRow f source row) (hf : f.Of source) :
    (declaredFrom 0 row).Perm (scopeNames source ++ if f.entry.depth = 0 then f.entry.addedNames else []) ∨
      f.entry.BehindStar source ∧ (declaredFrom 0 row).Subperm (scopeNames source ++ f.entry.addedNames) := by
  obtain ⟨hhelpers, hslashed⟩ := helpers_apart f.heading.dialect
  cases h with
  | @apart A B C hbefore hA hcut hslash =>
    left
    obtain ⟨hB, hsource⟩ := hf.scopeNames_cut hbefore hA hcut
    have hC : through f.entry.depth C = some 0 ∧ declaredFrom f.entry.depth B = declaredFrom f.entry.depth C := by
      rcases hslash with rfl | rfl
      · exact ⟨hB, rfl⟩
      · exact declaredFrom_slash hB
    rw [f.declaredFrom_added hA, declaredFrom_helpers hhelpers hC.1, hsource, hC.2, List.append_assoc]
    exact List.perm_append_comm.append_left _
  | glued hdepth =>
    left
    have hadded := f.declaredFrom_added (show through 0 [] = some 0 from rfl) f.newLexemes
    rw [if_pos rfl, List.nil_append, declaredFrom, List.nil_append] at hadded
    rw [declaredFrom_helpers hhelpers hf.entry.depth, hf.scopeNames_eq, hadded, if_pos hdepth, List.append_assoc]
    exact List.perm_append_comm.append_left _
  | @late A B P Q hstar hbefore hA hlast hcut =>
    right
    refine ⟨hstar, ?_⟩
    obtain ⟨hB, hsource⟩ := hf.scopeNames_cut hbefore hA (Or.inr hlast)
    subst hcut
    obtain ⟨e, he, hsub⟩ := declaredFrom_up_to hB
    rw [f.declaredFrom_added hA, declaredFrom_helpers hslashed he, hsource, List.append_assoc]
    refine (List.Sublist.append_left ?_ _).subperm.trans (List.perm_append_comm.append_left _).subperm
    refine List.Sublist.append ?_ (hsub.append (declaredFrom_sublist hf.through_newLexemes e))
    split
    · exact List.Sublist.refl _
    · exact List.nil_sublist _
  | @early P Q hstar hbefore =>
    right
    refine ⟨hstar, ?_⟩
    have hdepth := hf.entry.depth
    rw [hbefore] at hdepth
    obtain ⟨e, he, hsub⟩ := declaredFrom_up_to hdepth
    rw [declaredFrom_helpers hslashed he, hf.scopeNames_eq, hbefore]
    exact ((hsub.append (declaredFrom_sublist hf.through_newLexemes e)).trans (List.sublist_append_left _ _)).subperm

end Row

/-! ## The text that is made -/

/-- The two tests of the pass see each new name that the source declares. -/
structure Entry.Tested (e : Entry) (source : String) : Prop where
  direction : "u_morphDirection" ∉ scopeNames source
  resolution : "u_resolution" ∈ scopeNames source → "u_resolution" ∈ declaredNames e.statements

/-- No name is declared twice, and each of the three once. -/
structure DeclaredOnce (made : String) : Prop where
  nodup : (scopeNames made).Nodup
  once : ∀ n ∈ morphNames, (scopeNames made).count n = 1

theorem mem_of_declaredFrom {d : Nat} {xs : List Lexeme} {s : String} (h : s ∈ declaredFrom d xs) : name s ∈ xs := by
  induction xs generalizing d with
  | nil => cases h
  | cons x xs ih =>
    rcases List.mem_append.mp h with h | h
    · split at h
      · obtain ⟨t, n, rest, hcut, rfl⟩ := declared?_eq_some_iff.mp (Option.mem_toList.mp h)
        have hname : name (String.ofList n) = (.name, n) := by rw [name, String.toList_ofList]
        rw [hcut, hname]
        simp
      · cases h
    · exact List.mem_cons_of_mem _ (ih h)

/-- No source that the pass changes declares the progress. -/
theorem progress_not_declared {source : String} (h : (wrap source).source ≠ source) :
    "u_morphProgress" ∉ scopeNames source := by
  intro hmem
  obtain ⟨p, hp⟩ := source_ne_iff.mp h
  have := planOf_of_progress (mem_of_declaredFrom hmem)
  rw [hp] at this
  cases this

theorem nodup_added_iff {e : Entry} {source : String} (hprogress : "u_morphProgress" ∉ scopeNames source)
    (hnodup : (scopeNames source).Nodup) : (scopeNames source ++ e.addedNames).Nodup ↔ e.Tested source := by
  rw [List.nodup_append', List.disjoint_comm]
  unfold Entry.addedNames
  by_cases hdeclared : "u_resolution" ∈ declaredNames e.statements
  · have htested : e.Tested source ↔ "u_morphDirection" ∉ scopeNames source :=
      ⟨fun h => h.direction, fun h => ⟨h, fun _ => hdeclared⟩⟩
    simp [hdeclared, hnodup, hprogress, htested]
  · have htested : e.Tested source ↔ "u_morphDirection" ∉ scopeNames source ∧ "u_resolution" ∉ scopeNames source :=
      ⟨fun h => ⟨h.direction, fun hmem => hdeclared (h.resolution hmem)⟩, fun h => ⟨h.1, fun hmem => absurd hmem h.2⟩⟩
    simp [hdeclared, hnodup, hprogress, htested, and_comm]

/-- With the names of the source and the new ones, each is there once when the tests answer right. -/
theorem declaredOnce_iff {e : Entry} {source made : String}
    (hperm : (scopeNames made).Perm (scopeNames source ++ if e.depth = 0 then e.addedNames else []))
    (hprogress : "u_morphProgress" ∉ scopeNames source) (hnodup : (scopeNames source).Nodup) :
    DeclaredOnce made ↔ e.depth = 0 ∧ e.Tested source ∧
      ("u_resolution" ∈ declaredNames e.statements → "u_resolution" ∈ scopeNames source) := by
  constructor
  · intro h
    have hmem : ∀ n ∈ morphNames, n ∈ scopeNames source ++ if e.depth = 0 then e.addedNames else [] := fun n hn =>
      hperm.mem_iff.mp (List.count_pos_iff.mp (by rw [h.once n hn]; decide))
    have hdepth : e.depth = 0 := by
      by_contra hdeep
      have := hmem "u_morphProgress" (by decide)
      rw [if_neg hdeep, List.append_nil] at this
      exact hprogress this
    rw [if_pos hdepth] at hperm hmem
    refine ⟨hdepth, (nodup_added_iff hprogress hnodup).mp (hperm.nodup_iff.mp h.nodup), fun hdeclared => ?_⟩
    have := hmem "u_resolution" (by decide)
    simpa [Entry.addedNames, hdeclared] using this
  · rintro ⟨hdepth, htested, hdeclares⟩
    rw [if_pos hdepth] at hperm
    have hmade : (scopeNames made).Nodup := hperm.nodup_iff.mpr ((nodup_added_iff hprogress hnodup).mpr htested)
    refine ⟨hmade, fun n hn => List.count_eq_one_of_mem hmade (hperm.mem_iff.mpr ?_)⟩
    by_cases hdeclared : "u_resolution" ∈ declaredNames e.statements
    · have := hdeclares hdeclared
      simp only [morphNames, List.mem_cons, List.not_mem_nil, or_false] at hn
      rcases hn with rfl | rfl | rfl <;> simp [Entry.addedNames, this]
    · simp only [morphNames, List.mem_cons, List.not_mem_nil, or_false] at hn
      rcases hn with rfl | rfl | rfl <;> simp [Entry.addedNames, hdeclared]

theorem scopeNames_wrap {source : String} (h : (wrap source).source ≠ source) {e : Entry}
    (he : entryOf source = some e) :
    (scopeNames (wrap source).source).Perm (scopeNames source ++ if e.depth = 0 then e.addedNames else []) ∨
      e.BehindStar source ∧ (scopeNames (wrap source).source).Subperm (scopeNames source ++ e.addedNames) := by
  obtain ⟨f, hf, hmade⟩ := exists_madeAt h
  obtain rfl : f.entry = e := Option.some.inj (hf.entryOf_eq.symm.trans he)
  exact (exists_newRow hf hmade).names hf

/-- The new text declares what the source does and the new names, and if the source declares no name
twice it declares each of the three once exactly when they come to file scope and both tests answer
right. -/
theorem wrap_scope_names {source : String} (h : (wrap source).source ≠ source) :
    ∃ e, entryOf source = some e ∧
      (scopeNames (wrap source).source).Subperm (scopeNames source ++ e.addedNames) ∧
      (¬e.BehindStar source → (scopeNames (wrap source).source).Perm
        (scopeNames source ++ if e.depth = 0 then e.addedNames else [])) ∧
      ((scopeNames source).Nodup → (e.Tested source → (scopeNames (wrap source).source).Nodup) ∧
        (¬e.BehindStar source → (DeclaredOnce (wrap source).source ↔ e.depth = 0 ∧ e.Tested source ∧
          ("u_resolution" ∈ declaredNames e.statements → "u_resolution" ∈ scopeNames source)))) := by
  obtain ⟨f, hf, -⟩ := exists_madeAt h
  have hnames := scopeNames_wrap h hf.entryOf_eq
  have hprogress := progress_not_declared h
  have hperm : ¬f.entry.BehindStar source → (scopeNames (wrap source).source).Perm
      (scopeNames source ++ if f.entry.depth = 0 then f.entry.addedNames else []) :=
    fun hstar => hnames.resolve_right fun h => hstar h.1
  have hsub : (scopeNames (wrap source).source).Subperm (scopeNames source ++ f.entry.addedNames) := by
    rcases hnames with hperm | ⟨-, hsub⟩
    · refine hperm.subperm.trans (List.Sublist.subperm ((List.Sublist.refl _).append ?_))
      split
      · exact List.Sublist.refl _
      · exact List.nil_sublist _
    · exact hsub
  refine ⟨f.entry, hf.entryOf_eq, hsub, hperm, fun hnodup => ⟨fun htested => ?_, fun hstar => ?_⟩⟩
  · obtain ⟨names, hmade, hall⟩ := hsub
    exact hmade.nodup_iff.mp (((nodup_added_iff hprogress hnodup).mpr htested).sublist hall)
  · exact declaredOnce_iff (hperm hstar) hprogress hnodup

theorem smallShader_scope_names :
    (wrap smallShader).source ≠ smallShader ∧ ∃ e, entryOf smallShader = some e ∧
      (scopeNames (wrap smallShader).source).Subperm (scopeNames smallShader ++ e.addedNames) ∧
      ¬e.BehindStar smallShader ∧
      (scopeNames (wrap smallShader).source).Perm ["u_resolution", "u_morphProgress", "u_morphDirection"] ∧
      (scopeNames smallShader).Nodup ∧ e.depth = 0 ∧ e.Tested smallShader ∧ DeclaredOnce (wrap smallShader).source := by
  obtain ⟨e, he, hsub, hperm, honce⟩ := wrap_scope_names smallShader_changed
  obtain ⟨e', he', -, -, hdepth, hdeclared, hlast⟩ := smallShader_entry
  obtain rfl : e' = e := Option.some.inj (he'.symm.trans he)
  have hnames : scopeNames smallShader = ["u_resolution"] := by decide +kernel
  have hnodup : (scopeNames smallShader).Nodup := by rw [hnames]; decide
  have hadded : e'.addedNames = ["u_morphProgress", "u_morphDirection"] := by simp [Entry.addedNames, hdeclared]
  have htested : e'.Tested smallShader := ⟨by rw [hnames]; decide, fun _ => hdeclared⟩
  have hstar : ¬e'.BehindStar smallShader := by
    intro hstar
    cases hlast.symm.trans hstar
  have hperm := hperm hstar
  rw [if_pos hdepth, hnames, hadded] at hperm
  exact ⟨smallShader_changed, e', he, hsub, hstar, hperm, hnodup, hdepth, htested,
    ((honce hnodup).2 hstar).mpr ⟨hdepth, htested, fun _ => by rw [hnames]; decide⟩⟩

/-- A shader that declares the direction already. -/
def directionShader : String := "uniform float2 u_resolution;
uniform float u_morphDirection;
half4 main(float2 xy) \x7b return half4(c, 1.0); \x7d"

theorem directionShader_entry : ∃ e, entryOf directionShader = some e ∧ e.depth = 0 ∧ ¬e.BehindStar directionShader ∧
    e.addedNames = ["u_morphProgress", "u_morphDirection"] := by
  have h : (entryOf directionShader).any (fun e => e.depth == 0 &&
      (directionShader.toList.take e.returnType.start).getLast? != some '*' &&
        e.addedNames == ["u_morphProgress", "u_morphDirection"]) = true := by decide +kernel
  obtain ⟨e, he, h⟩ := (Option.any_eq_true _ _).mp h
  simp only [Bool.and_eq_true, beq_iff_eq, bne_iff_ne] at h
  exact ⟨e, he, h.1.1, h.1.2, h.2⟩

/-- The direction is declared once more. -/
theorem directionShader_declared_twice :
    (wrap directionShader).source ≠ directionShader ∧ (scopeNames directionShader).Nodup ∧
      (scopeNames (wrap directionShader).source).count "u_morphDirection" = 2 := by
  have hchanged : (wrap directionShader).source ≠ directionShader := source_ne_of_plan (by decide +kernel)
  have hnames : scopeNames directionShader = ["u_resolution", "u_morphDirection"] := by decide +kernel
  obtain ⟨e, he, hdepth, hstar, hadded⟩ := directionShader_entry
  have hperm := (scopeNames_wrap hchanged he).resolve_right fun h => hstar h.1
  rw [hnames, if_pos hdepth, hadded] at hperm
  refine ⟨hchanged, by rw [hnames]; decide, ?_⟩
  rw [hperm.count_eq]
  decide

end ShaderLoom.Morph
