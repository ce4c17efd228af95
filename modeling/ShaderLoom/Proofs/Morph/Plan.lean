/-
  ShaderLoom.Proofs.Morph.Plan — what the pass finds in a source that it changes.

  `Found` names the parts: the tokens before the entry point, its heading, the cuts that start at
  its return type, the tokens behind the last one, and the significant tokens of the body and of
  what follows it. A source that gets a plan has such parts (`exists_found`), and the plan is read
  off them.
-/

import ShaderLoom.Proofs.Morph.Cut
import ShaderLoom.Proofs.Morph.Heading
import ShaderLoom.Proofs.Lexeme.Significant

namespace ShaderLoom.Morph

open ShaderLoom.Token ShaderLoom.Text
open ShaderLoom.Lexeme hiding significant isSignificant

/-- The name in the heading of a source is one. -/
theorem FirstHeading.isName {source : String} {d : Nat} {before rest : List Token} {w : Heading}
    (h : FirstHeading d (significant (tokenize source)) before w rest) : IsName w.name.text.toList := by
  have hmem : w.name ∈ significant (tokenize source) := by rw [h.cut]; simp [Heading.tokens]
  exact isName_of_mem (List.mem_filter.mp hmem).1 h.valid.2.2.2.2.1

structure Found where
  front : List Token
  heading : Heading
  cuts : List Cut
  tail : List Token
  body : List Token
  brace : Token
  rest : List Token

namespace Found

def before (f : Found) : List Token := significant f.front

/-- The significant tokens behind the heading. -/
def after (f : Found) : List Token := f.body ++ f.brace :: f.rest

def entry (f : Found) : Entry :=
  ⟨placed 0 f.before, f.heading.ret, f.heading.name.text, f.heading.dialect, f.after⟩

def swaps (f : Found) : List (Swap Char) := f.cuts.map (Cut.swap f.heading.name.text)

/-- The parts are those of the source. -/
structure Of (f : Found) (source : String) : Prop where
  tokens : tokenize source = f.front ++ (Cut.tokens f.cuts ++ f.tail)
  start : ∃ more, Cut.tokens f.cuts ++ f.tail = f.heading.ret :: more
  entry : FirstHeading 0 (significant (tokenize source)) f.before f.heading f.after
  body : blockBody 0 f.after = some f.body
  brace : f.brace.text = "\x7d"
  sites : f.cuts.map Cut.site = returns f.body
  sound : ∀ c ∈ f.cuts, c.Sound
  nonempty : f.cuts ≠ []
  balanced : through 0 ((significant (tokenize source)).map lexeme) = some 0

variable {f : Found} {source : String}

theorem Of.text (h : f.Of source) :
    source.toList = textOf f.front ++ (textOf (Cut.tokens f.cuts) ++ textOf f.tail) := by
  rw [← textOf_tokenize source, h.tokens, textOf_append, textOf_append]

theorem Of.significant_entry (h : f.Of source) :
    significant (Cut.tokens f.cuts ++ f.tail) = f.heading.tokens ++ f.after := by
  have hcut := h.entry.cut
  rw [h.tokens, significant_append] at hcut
  exact List.append_cancel_left hcut

theorem Of.start_place (h : f.Of source) : f.heading.ret.start = (textOf f.front).length := by
  obtain ⟨more, hmore⟩ := h.start
  have hlaid := tokenize_laid source
  rw [h.tokens, hmore] at hlaid
  simpa using hlaid.place.1

end Found

/-- A row of tokens with a heading and a body in it, cut at the returns of the body. -/
theorem exists_cuts_of_heading {ts before body rest : List Token} {w : Heading}
    (hts : significant ts = before ++ (w.tokens ++ (body ++ rest))) :
    ∃ front cuts tail, ts = front ++ (Cut.tokens cuts ++ tail) ∧ significant front = before ∧
      (∃ more, Cut.tokens cuts ++ tail = w.ret :: more) ∧ cuts.map Cut.site = returns body ∧
        ∀ c ∈ cuts, c.Sound := by
  obtain ⟨front, behind, rfl, hfront, hbehind⟩ := significant_eq_append hts
  obtain ⟨gap, more, rfl, hgap, hmore⟩ := significant_eq_cons
    (show significant behind = w.ret :: (w.tokens.tail ++ (body ++ rest)) from hbehind)
  have hret : isSignificant w.ret = true := by
    have : w.ret ∈ significant (gap ++ w.ret :: more) := by rw [hbehind]; simp [Heading.tokens]
    exact (List.mem_filter.mp this).2
  have hrest : significant (w.ret :: more) = (w.tokens ++ body) ++ rest := by
    rw [significant, List.filter_cons_of_pos hret]
    show w.ret :: significant more = _
    rw [hmore]
    simp [Heading.tokens]
  obtain ⟨cuts, tail, hcut, hsites, hsound⟩ := exists_cuts hrest ((returns_split body).prepend w.tokens)
  refine ⟨front ++ gap, cuts, tail, by rw [← hcut]; simp, ?_, ⟨more, hcut.symm⟩, hsites, hsound⟩
  rw [significant_append, hfront, hgap, List.append_nil]

/-- A heading opens one block, since its name is no brace. -/
theorem Heading.through_tokens {w : Heading} (hw : w.Valid) (hname : IsName w.name.text.toList) (d : Nat) :
    through d (w.tokens.map lexeme) = some (d + 1) := by
  obtain ⟨hret, hmain, hopening, htype, -, hclosing, hbrace⟩ := hw
  have hother : ∀ {t : Token}, t.text ≠ "\x7b" → t.text ≠ "\x7d" → depthBehind d t.lexeme = some d := by
    intro t ho hc
    rw [depthBehind, if_neg fun h => ho ((opens_lexeme t).mp h), if_neg fun h => hc ((closes_lexeme t).mp h)]
  have hret' : depthBehind d w.ret.lexeme = some d := by
    simp only [vectorTypes, List.mem_cons, List.not_mem_nil, or_false] at hret
    rcases hret with h | h | h <;> exact hother (by rw [h]; decide) (by rw [h]; decide)
  have htype' : depthBehind d w.type.lexeme = some d := by
    simp only [pairTypes, List.mem_cons, List.not_mem_nil, or_false] at htype
    rcases htype with h | h <;> exact hother (by rw [h]; decide) (by rw [h]; decide)
  have hname' : depthBehind d w.name.lexeme = some d := by
    have hnot : ∀ c, isNameStart c = false → w.name.text ≠ String.ofList [c] := by
      intro c hc h
      rw [h, String.toList_ofList] at hname
      rw [hname.1] at hc
      cases hc
    exact hother (hnot '\x7b' (by decide)) (hnot '\x7d' (by decide))
  have hbrace' : depthBehind d w.brace.lexeme = some (d + 1) := if_pos ((opens_lexeme _).mpr hbrace)
  simp only [Heading.tokens, List.map_cons, List.map_nil, through_cons, through_nil, hret', htype',
    hname', hbrace', hother (show w.main.text ≠ "\x7b" by rw [hmain]; decide) (by rw [hmain]; decide),
    hother (show w.opening.text ≠ "\x7b" by rw [hopening]; decide) (by rw [hopening]; decide),
    hother (show w.closing.text ≠ "\x7b" by rw [hclosing]; decide) (by rw [hclosing]; decide),
    Option.bind_some]

/-- Where the braces balance, the entry point that is found has a body. -/
theorem exists_body {source : String} {before rest : List Token} {w : Heading}
    (hbal : through 0 ((significant (tokenize source)).map lexeme) = some 0)
    (h : FirstHeading 0 (significant (tokenize source)) before w rest) :
    ∃ body brace more, blockBody 0 rest = some body ∧ rest = body ++ brace :: more ∧
      brace.text = "\x7d" := by
  have hopen : through 1 (rest.map lexeme) = some 0 := by
    rw [h.cut, List.map_append, through_append_of h.depth, List.map_append,
      through_append_of (Heading.through_tokens h.valid h.isName 0)] at hbal
    exact hbal
  obtain ⟨body, hbody⟩ := exists_blockBody (k := 0) hopen (Nat.le_refl 0)
  obtain ⟨-, brace, more, hrest, hbrace⟩ := blockBody_spec hbody
  exact ⟨body, brace, more, hbody, hrest, hbrace⟩

theorem exists_found {source : String} {p : Plan}
    (h : plan source.toList (significant (tokenize source)) = .ok p) :
    ∃ f : Found, f.Of source ∧
      p = ⟨Swap.edits (textOf f.front).length f.swaps, insertions source.toList f.entry⟩ := by
  unfold plan at h
  split at h
  · cases h
  split at h
  · cases h
  rename_i depths hdepths
  have hbal := exists_depths_iff.mp ⟨depths, hdepths⟩
  rw [zip_depthsFrom hdepths] at h
  split at h
  · cases h
  rename_i entry hentry
  obtain ⟨before, w, rest, hfirst, rfl⟩ := (findEntry_eq_some_iff hbal).mp hentry
  obtain ⟨body, brace, more, hbody, rfl, hbrace⟩ := exists_body hbal hfirst
  obtain ⟨front, cuts, tail, hts, hfront, hstart, hsites, hsound⟩ := exists_cuts_of_heading hfirst.cut
  simp only [hbody, Option.getD_some] at h
  split at h
  · cases h
  rename_i hsome
  subst hfront
  have hne : cuts ≠ [] := by
    intro heq
    subst heq
    rw [← hsites] at hsome
    exact hsome rfl
  refine ⟨⟨front, w, cuts, tail, body, brace, more⟩,
    ⟨hts, hstart, hfirst, hbody, hbrace, hsites, hsound, hne, hbal⟩, ?_⟩
  have hlaid := tokenize_laid source
  rw [hts] at hlaid
  have hedits := alphaEdits_eq hlaid hsound w.name.text
  rw [← hts, textOf_tokenize, hsites] at hedits
  rw [← Except.ok.inj h, hedits]
  rfl

end ShaderLoom.Morph
