/-
  ShaderLoom.Proofs.Morph.Scope — the brace depth of the new declarations.

  The new declarations go behind a semicolon, and they are at file scope when that semicolon is. The
  scan checks the depth of the `uniform` that starts a declaration only, so the semicolon of a
  member ends a uniform block for it: then the declarations are put into the block. In every text
  that the pass makes, each `uniform` of the new declarations stands at the depth of the semicolon
  (`wrap_added_depth`): the tokens above them are those of the source and of the helpers, which are
  balanced, and their own text has no brace.

  A comment can hide them (`Anchor.Of.lexemes_apart`), but only with a star right before the entry
  point (`Entry.BehindStar`).
-/

import ShaderLoom.Proofs.Morph.Reading
import ShaderLoom.Proofs.Morph.Refused

namespace ShaderLoom.Morph

open ShaderLoom.Token ShaderLoom.Text
open ShaderLoom.Lexeme hiding significant isSignificant

namespace Entry

/-- Where the lines of the new declarations start in the text that is made. -/
def place (e : Entry) (source : String) : Nat :=
  match e.statements.getLast? with
  | none => e.returnType.start
  | some s =>
    if s.semicolon.stop = e.returnType.start then e.offset source + e.helpers.length + 1 else e.offset source + 1

/-- A star stands right before the entry point. -/
def BehindStar (e : Entry) (source : String) : Prop :=
  (source.toList.take e.returnType.start).getLast? = some '*'

/-- In the text that is made, `t` is a `uniform` of the new declarations and `ahead` are the tokens before it. -/
structure Adds (e : Entry) (source made : String) (ahead : List Token) (t : Token) : Prop where
  cut : ∃ behind, significant (tokenize made) = ahead ++ t :: behind
  text : t.text = "uniform"
  within : e.place source ≤ t.start ∧ t.start < e.place source + e.core.length

end Entry

/-! ## Depths along a row -/

theorem through_of_placed {k e d : Nat} {ts : List Token} {pre post : List Placed} {t : Token}
    (hbal : through k (ts.map lexeme) = some e) (h : placed k ts = pre ++ (t, d) :: post) :
    through k ((pre.map (·.1)).map lexeme) = some d := by
  induction pre generalizing k ts with
  | nil =>
    cases ts with
    | nil => simp [placed] at h
    | cons u ts =>
      obtain ⟨hu, -⟩ := List.cons.inj h
      rw [(Prod.mk.inj hu).2]
      rfl
  | cons p pre ih =>
    cases ts with
    | nil => simp [placed] at h
    | cons u ts =>
      rw [List.map_cons, through_cons] at hbal
      obtain ⟨k', hk, hbal⟩ := Option.bind_eq_some_iff.mp hbal
      rw [placed, hk, Option.getD_some] at h
      obtain ⟨rfl, hrest⟩ := List.cons.inj h
      rw [List.map_cons, List.map_cons, through_cons, hk]
      exact ih hbal hrest

theorem opened_eq_of_through {d : Nat} {ts : List Token} (h : through 0 (ts.map lexeme) = some d) :
    opened ts = closed ts + d := by
  have := (through_eq_some_iff.mp h).2
  rw [countP_opens, countP_closes] at this
  omega

theorem opened_append (ts us : List Token) : opened (ts ++ us) = opened ts + opened us := List.countP_append

theorem closed_append (ts us : List Token) : closed (ts ++ us) = closed ts + closed us := List.countP_append

theorem Found.depth_of_none {f : Found} (hs : f.statements = []) : f.entry.depth = 0 := by
  have hs' : f.entry.statements = [] := hs
  simp [Entry.depth, Entry.behind, hs']

/-- The depth behind the semicolon that the new declarations go behind. -/
theorem Anchor.Of.through_head {a : Anchor} {f : Found} {source : String} (ha : a.Of f) (hf : f.Of source) :
    through 0 (a.head.map lexeme) = some f.entry.depth := by
  obtain ⟨s, pre, keyword, inside, d, post, heq, hclosing, hbehind, -, hhead⟩ := ha.exists_closing hf
  have hdepth : f.entry.depth = d := by rw [Entry.depth, hbehind]; rfl
  have hcut : placed 0 f.before = (pre ++ (keyword, 0) :: inside) ++ (a.semicolon, d) :: post := by
    rw [← heq, show placed 0 f.before = f.entry.before from rfl, hclosing.cut]
    simp
  have hhead' : a.head = (pre ++ (keyword, 0) :: inside).map (·.1) ++ [a.semicolon] := by
    rw [← hhead]
    simp
  rw [hhead', List.map_append, through_append_of (through_of_placed hf.entry.depth hcut), hdepth]
  refine through_of_no_brace (fun x hx => ?_) d
  obtain rfl : x = a.semicolon.lexeme := by simpa using hx
  constructor
  · rw [← Bool.not_eq_true, opens_lexeme, ha.semicolon]
    decide
  · rw [← Bool.not_eq_true, closes_lexeme, ha.semicolon]
    decide

theorem Anchor.Of.opened_head {a : Anchor} {f : Found} {source : String} (ha : a.Of f) (hf : f.Of source) :
    opened a.head = closed a.head + f.entry.depth :=
  opened_eq_of_through (ha.through_head hf)

/-! ## Tokens in a text without braces -/

section Core

variable {made : String} {xs : List Lexeme} {core rest : List Char}

/-- Where lexemes are cut, the tokens are. -/
theorem exists_tokens {ys : List Lexeme} (h : lexemes made.toList = xs ++ ys) :
    ∃ ts us, tokenize made = ts ++ us ∧ ts.map lexeme = xs ∧ us.map lexeme = ys :=
  List.map_eq_append_iff.mp h

/-- No token that starts in a text without braces is one. -/
theorem no_brace_within {ts us : List Token} (h : tokenize made = ts ++ us) (htext : textOf us = core ++ rest)
    (hcore : ∀ c ∈ core, c ≠ '\x7b' ∧ c ≠ '\x7d') {u : Token} (hu : u ∈ us)
    (hstart : u.start < (textOf ts).length + core.length) : u.text ≠ "\x7b" ∧ u.text ≠ "\x7d" := by
  obtain ⟨pre, post, rfl⟩ := List.append_of_mem hu
  have hlaid := tokenize_laid made
  rw [h, ← List.append_assoc] at hlaid
  have hplace : u.start = (textOf ts).length + (textOf pre).length := by simpa using hlaid.place.1
  have hmem : ∀ c, u.text.toList = [c] → c ∈ core := by
    intro c hc
    rw [textOf_append, textOf_cons, hc] at htext
    rcases List.append_eq_append_iff.mp htext with ⟨m, hcut, hm⟩ | ⟨m, hcut, -⟩
    · cases m with
      | nil =>
        rw [List.append_nil] at hcut
        rw [hcut] at hstart
        omega
      | cons d m =>
        obtain ⟨rfl, -⟩ := List.cons.inj hm
        rw [hcut]
        simp
    · have := congrArg List.length hcut
      rw [List.length_append] at this
      omega
  constructor
  · intro heq
    exact (hcore '\x7b' (hmem _ (by rw [heq]; rfl))).1 rfl
  · intro heq
    exact (hcore '\x7d' (hmem _ (by rw [heq]; rfl))).2 rfl

/-- The depth of every token that starts in such a text is that at its start. -/
theorem opened_within {d : Nat} (h : lexemes made.toList = xs ++ lexemes (core ++ rest))
    (hcore : ∀ c ∈ core, c ≠ '\x7b' ∧ c ≠ '\x7d')
    (hdepth : (xs.filter Lexeme.isSignificant).countP opens = (xs.filter Lexeme.isSignificant).countP closes + d)
    {ahead behind : List Token} {t : Token} (hcut : significant (tokenize made) = ahead ++ t :: behind)
    (hfrom : (joined xs).length ≤ t.start) (hupTo : t.start < (joined xs).length + core.length) :
    opened ahead = closed ahead + d := by
  obtain ⟨ts, us, htokens, rfl, hus⟩ := exists_tokens h
  have htext : textOf us = core ++ rest := by rw [← joined_map_lexeme, hus, joined_lexemes]
  have hlaid := tokenize_laid made
  have hordered := ordered_significant made
  rw [joined_map_lexeme] at hfrom hupTo
  rw [filter_map_lexeme, countP_opens, countP_closes] at hdepth
  rw [htokens] at hlaid
  have hsplit := hcut
  rw [htokens, Token.significant_append] at hsplit
  obtain ⟨m, rfl, hus'⟩ : ∃ m, ahead = significant ts ++ m ∧ significant us = m ++ t :: behind := by
    rcases List.append_eq_append_iff.mp hsplit with ⟨m, hahead, hm⟩ | ⟨m, hts, hm⟩
    · exact ⟨m, hahead, hm⟩
    · cases m with
      | nil => exact ⟨[], by simpa using hts.symm, by simpa using hm.symm⟩
      | cons u m =>
        exfalso
        obtain ⟨rfl, -⟩ := List.cons.inj hm
        have hmem : t ∈ ts := (List.mem_filter.mp (show t ∈ significant ts by rw [hts]; simp)).1
        have hstop := stop_le_of_laid hlaid t hmem
        have := hordered.nonempty t (by rw [hcut]; simp)
        omega
  have hnone : ∀ u ∈ m, u.text ≠ "\x7b" ∧ u.text ≠ "\x7d" := by
    intro u hu
    have hmem : u ∈ us := (List.mem_filter.mp (show u ∈ significant us by rw [hus']; simp [hu])).1
    refine no_brace_within htokens htext hcore hmem ?_
    rw [hcut] at hordered
    have := (List.pairwise_append.mp hordered.apart).2.2 u (List.mem_append_right _ hu) t (by simp)
    have := hordered.nonempty u (by simp [hu])
    omega
  have hopened : opened m = 0 := List.countP_eq_zero.mpr fun u hu => by simpa using (hnone u hu).1
  have hclosed : closed m = 0 := List.countP_eq_zero.mpr fun u hu => by simpa using (hnone u hu).2
  rw [opened_append, closed_append, hopened, hclosed]
  omega

/-- A word at its start is a token that starts there. -/
theorem exists_start {n v : List Char} (h : lexemes made.toList = xs ++ lexemes (core ++ rest)) (hn : IsName n)
    (hcore : core = n ++ ' ' :: v) : ∃ ahead t behind, significant (tokenize made) = ahead ++ t :: behind ∧
      t.text.toList = n ∧ t.start = (joined xs).length := by
  have hname : lexemes (core ++ rest) = (.name, n) :: lexemes (' ' :: (v ++ rest)) := by
    obtain ⟨c, n, rfl⟩ := List.exists_cons_of_ne_nil (l := n) (by rintro rfl; exact hn)
    have : Stands (.name, c :: n) (' ' :: (v ++ rest)) :=
      ⟨c, n, rfl, by rw [first_of_nameStart hn.1, takeWhile_append_eq_left.mpr ⟨hn.2,
        show startsWith isWord (' ' :: (v ++ rest)) = false from (by decide : isWord ' ' = false)⟩]⟩
    rw [hcore, ← this.lexemes_append]
    simp
  obtain ⟨ts, us, htokens, rfl, hus⟩ := exists_tokens h
  rw [hname] at hus
  obtain ⟨t, us, rfl, ht, -⟩ := List.map_eq_cons_iff.mp hus
  have hlaid := tokenize_laid made
  rw [htokens] at hlaid
  have hsig : isSignificant t = true := by
    have : t.kind = .name := congrArg Prod.fst ht
    simp [isSignificant, this]
  refine ⟨significant ts, t, significant us, ?_, congrArg Prod.snd ht, ?_⟩
  · rw [htokens, Token.significant_append, significant, significant, significant, List.filter_cons_of_pos hsig]
  · rw [hlaid.place.1, joined_map_lexeme, Nat.zero_add]

/-- No significant token starts within a comment. -/
theorem not_start_within_comment {text v : List Char} (h : lexemes made.toList = xs ++ (.comment, text) :: lexemes v)
    {t : Token} (ht : t ∈ significant (tokenize made)) (hfrom : (joined xs).length < t.start) :
    (joined xs).length + text.length ≤ t.start := by
  obtain ⟨ts, us, htokens, rfl, hus⟩ := exists_tokens h
  obtain ⟨c, us, rfl, hc, -⟩ := List.map_eq_cons_iff.mp hus
  have hlaid := tokenize_laid made
  rw [htokens] at hlaid
  rw [joined_map_lexeme] at hfrom ⊢
  obtain ⟨hmem, hsig⟩ := List.mem_filter.mp ht
  rw [htokens] at hmem
  have htext : c.text.toList = text := congrArg Prod.snd hc
  rcases List.mem_append.mp hmem with hmem | hmem
  · have := stop_le_of_laid hlaid t hmem
    have := (ordered_significant made).nonempty t ht
    omega
  · rcases List.mem_cons.mp hmem with rfl | hmem
    · have : t.kind = .comment := congrArg Prod.fst hc
      simp [isSignificant, this] at hsig
    · rw [List.append_cons] at hlaid
      have := le_start_of_laid hlaid.append_right t hmem
      rw [textOf_append, textOf_cons, textOf_nil, htext] at this
      simpa using this

end Core

/-! ## The text that is made -/

/-- What is to be known of the new declarations in a text: where they are, and how deep. -/
structure Entry.Scoped (e : Entry) (source made : String) : Prop where
  text : e.core <+: made.toList.drop (e.place source)
  depth : ∀ ahead t, e.Adds source made ahead t → opened ahead = closed ahead + e.depth
  added : ¬e.BehindStar source → ∃ ahead t, e.Adds source made ahead t

/-- Where lexemes as deep as the semicolon stand above the new declarations. -/
theorem Entry.Scoped.of_lexemes {e : Entry} {source made : String} {xs : List Lexeme} {rest : List Char}
    (h : lexemes made.toList = xs ++ lexemes (e.core ++ rest)) (hplace : e.place source = (joined xs).length)
    (hdepth : (xs.filter Lexeme.isSignificant).countP opens =
      (xs.filter Lexeme.isSignificant).countP closes + e.depth) : e.Scoped source made := by
  obtain ⟨v, hv⟩ := e.core_start
  refine ⟨?_, fun ahead t hadds => ?_, fun _ => ?_⟩
  · have htext := joined_lexemes made.toList
    rw [h, joined_append, joined_lexemes] at htext
    rw [← htext, hplace, List.drop_left]
    exact List.prefix_append _ _
  · obtain ⟨⟨behind, hcut⟩, -, hfrom, hupTo⟩ := hadds
    rw [hplace] at hfrom hupTo
    exact opened_within h e.core_no_brace hdepth hcut hfrom hupTo
  · obtain ⟨ahead, t, behind, hcut, htext, hstart⟩ := exists_start h (by decide) hv
    refine ⟨ahead, t, ⟨behind, hcut⟩, String.toList_inj.mp htext, by omega, ?_⟩
    rw [hplace, hstart, hv]
    simp

theorem Found.Of.scoped_above {f : Found} {source made : String} (hf : f.Of source) (hs : f.statements = [])
    (hmade : made.toList = textOf f.front ++ (f.declarations ++ (f.helpers ++ f.swapped))) :
    f.entry.Scoped source made := by
  have hlex := hf.lexemes_above hs
  rw [← hmade, Found.Of.declarations_above hs, List.append_assoc] at hlex
  have hs' : f.entry.statements = [] := hs
  refine .of_lexemes hlex ?_ ?_
  · rw [joined_map_lexeme, Entry.place, hs']
    exact hf.start_place
  · rw [filter_map_lexeme, countP_opens, countP_closes, Found.depth_of_none hs]
    exact opened_eq_of_through hf.entry.depth

theorem helperLexemes_balanced (d : Dialect) : (helperLexemes d).countP opens = (helperLexemes d).countP closes := by
  have := (through_eq_some_iff.mp (helperLexemes_spec d).2).2
  omega

theorem filter_insignificant {gs : List Lexeme} (h : ∀ x ∈ gs, Lexeme.isSignificant x = false) :
    gs.filter Lexeme.isSignificant = [] :=
  List.filter_eq_nil_iff.mpr fun x hx => by simp [h x hx]

namespace Anchor

variable {a : Anchor} {f : Found} {source made : String}

theorem Of.place_eq (ha : a.Of f) (hf : f.Of source) (hoffset : f.entry.offset source = a.above.length) :
    f.entry.place source =
      if a.below = [] then a.above.length + f.helpers.length + 1 else a.above.length + 1 := by
  obtain ⟨s, hs, -⟩ := ha.last
  have hs' : f.entry.statements.getLast? = some s := hs
  have hiff : s.semicolon.stop = f.entry.returnType.start ↔ a.below = [] := by
    rw [← ha.glued_iff hf]
    exact ⟨fun h => ⟨s, hs', h⟩, fun ⟨s', hs'', h⟩ => by rw [Option.some.inj (hs'.symm.trans hs'')]; exact h⟩
  simp only [Entry.place, hs', hoffset, hiff]
  rfl

theorem Of.behindStar (ha : a.Of f) (hf : f.Of source) (hstar : a.below.getLast? = some '*') :
    f.entry.BehindStar source := by
  have hstart : f.entry.returnType.start = (a.above ++ a.below).length := by
    rw [← ha.front_text]
    exact hf.start_place
  rw [Entry.BehindStar, hstart, hf.text, ha.front_text, List.take_left, List.getLast?_append, hstar]
  rfl

theorem Of.scoped_glued (ha : a.Of f) (hf : f.Of source) (hoffset : f.entry.offset source = a.above.length)
    (hbelow : a.below = []) (hmade : made.toList = a.above ++ (f.helpers ++ (f.declarations ++ f.swapped))) :
    f.entry.Scoped source made := by
  obtain ⟨hs, hjoined, hsig, hlex⟩ := ha.lexemes_glued hf hbelow
  rw [← hmade, ← List.append_assoc] at hlex
  refine .of_lexemes hlex ?_ ?_
  · rw [ha.place_eq hf hoffset, if_pos hbelow, joined_append, joined_map_lexeme, hjoined, above,
      ha.gap_of_below_nil hbelow]
    simp
    omega
  · have hhead := ha.opened_head hf
    rw [← countP_opens, ← countP_closes] at hhead
    rw [List.filter_append, filter_map_lexeme, hsig, List.countP_append, List.countP_append, helperLexemes_balanced]
    show (a.head.map lexeme).countP opens + _ = _
    rw [hhead]
    simp only [head]
    omega

theorem Of.scoped_apart (ha : a.Of f) (hf : f.Of source) (hoffset : f.entry.offset source = a.above.length)
    (hbelow : a.below ≠ [])
    (hmade : made.toList = a.above ++ (f.declarations ++ (a.below ++ (f.helpers ++ f.swapped)))) :
    f.entry.Scoped source made := by
  have hplace : f.entry.place source = a.above.length + 1 := by rw [ha.place_eq hf hoffset, if_neg hbelow]
  obtain ⟨cs, hcs⟩ := f.entry.helpers_start
  have hslash : f.helpers ++ f.swapped = '/' :: (cs ++ f.swapped) := by
    rw [show f.helpers = f.entry.helpers from rfl, hcs, List.cons_append]
  have hmade' := hmade
  rw [hslash] at hmade
  rcases ha.lexemes_apart hf hbelow hslash with ⟨gs, hjoined, hgs, hlex⟩ | ⟨pre, post, r, hcut, hr, hstar, hlex⟩
  · rw [← hmade, ← List.append_assoc] at hlex
    refine .of_lexemes hlex ?_ ?_
    · rw [hplace, joined_append, joined_map_lexeme, hjoined, above]
      simp [Nat.add_assoc]
    · have hhead := ha.opened_head hf
      rw [← countP_opens, ← countP_closes] at hhead
      rw [List.filter_append, filter_map_lexeme, filter_insignificant hgs, List.append_nil]
      exact hhead
  · rw [← hmade] at hlex
    have htext : textOf a.upTo = joined pre ++ '/' :: '*' :: r := by
      rw [← joined_map_lexeme, hcut, joined_append, joined_cons, hr]
      rfl
    have habove : a.above.length = (joined pre).length + r.length + a.gap.length + 3 := by
      rw [above, textOf_append, htext, textOf_cons, ha.semicolon]
      simp
      omega
    refine ⟨?_, fun ahead t hadds => ?_, fun hnot => absurd ?_ hnot⟩
    · rw [hmade, hplace, ha.declarations_eq, Entry.lower_eq, List.cons_append, List.append_cons,
        List.drop_left' (by simp)]
      exact List.prefix_append _ _
    · exfalso
      obtain ⟨⟨behind, hcut⟩, -, hfrom, hupTo⟩ := hadds
      have := not_start_within_comment hlex (t := t) (by rw [hcut]; simp) (by omega)
      simp at this
      omega
    · exact ha.behindStar hf hstar

end Anchor

theorem scoped_wrap {source : String} (h : (wrap source).source ≠ source) {e : Entry}
    (he : entryOf source = some e) : e.Scoped source (wrap source).source := by
  obtain ⟨f, hf, hmade⟩ := exists_madeAt h
  obtain rfl : f.entry = e := Option.some.inj (hf.entryOf_eq.symm.trans he)
  generalize hnew : (wrap source).source.toList = made at hmade
  cases hmade with
  | above hs => exact hf.scoped_above hs hnew
  | apart ha hoffset hbelow => exact ha.scoped_apart hf hoffset hbelow hnew
  | glued ha hoffset hbelow => exact ha.scoped_glued hf hoffset hbelow hnew

/-- Each `uniform` of the new declarations stands at the depth of the semicolon that they go behind,
and so at file scope only if that semicolon does. -/
theorem wrap_added_depth {source : String} (h : (wrap source).source ≠ source) :
    ∃ e, entryOf source = some e ∧ e.Scoped source (wrap source).source ∧
      (¬e.BehindStar source →
        ((∀ ahead t, e.Adds source (wrap source).source ahead t → opened ahead = closed ahead) ↔ e.depth = 0)) := by
  obtain ⟨f, hf, -⟩ := exists_madeAt h
  have hscoped := scoped_wrap h hf.entryOf_eq
  refine ⟨f.entry, hf.entryOf_eq, hscoped, fun hstar => ⟨fun hall => ?_, fun hzero ahead t hadds => ?_⟩⟩
  · obtain ⟨ahead, t, hadds⟩ := hscoped.added hstar
    have hdepth := hscoped.depth ahead t hadds
    have hfile := hall ahead t hadds
    omega
  · rw [hscoped.depth ahead t hadds, hzero, Nat.add_zero]

theorem smallShader_added_depth :
    (wrap smallShader).source ≠ smallShader ∧ ∃ e, entryOf smallShader = some e ∧
      e.Scoped smallShader (wrap smallShader).source ∧ ¬e.BehindStar smallShader ∧ e.depth = 0 ∧
      (∃ ahead t, e.Adds smallShader (wrap smallShader).source ahead t) ∧
      ∀ ahead t, e.Adds smallShader (wrap smallShader).source ahead t → opened ahead = closed ahead := by
  obtain ⟨e, he, hscoped, hiff⟩ := wrap_added_depth smallShader_changed
  obtain ⟨e', he', -, -, hdepth, -, hlast⟩ := smallShader_entry
  obtain rfl : e' = e := Option.some.inj (he'.symm.trans he)
  have hstar : ¬e'.BehindStar smallShader := by
    intro hstar
    cases hlast.symm.trans hstar
  exact ⟨smallShader_changed, e', he, hscoped, hstar, hdepth, hscoped.added hstar, (hiff hstar).mpr hdepth⟩

/-- A shader that declares its uniforms in a block. -/
def blockShader : String := "uniform S \x7b float2 u_resolution; float t; \x7d s;
half4 main(float2 xy) \x7b return half4(c, 1.0); \x7d"

theorem blockShader_entry : ∃ e, entryOf blockShader = some e ∧ e.depth = 1 ∧ ¬e.BehindStar blockShader := by
  have h : (entryOf blockShader).any (fun e =>
      e.depth == 1 && (blockShader.toList.take e.returnType.start).getLast? != some '*') = true := by decide +kernel
  obtain ⟨e, he, h⟩ := (Option.any_eq_true _ _).mp h
  simp only [Bool.and_eq_true, beq_iff_eq, bne_iff_ne] at h
  exact ⟨e, he, h.1, h.2⟩

/-- The new declarations are put into the block. -/
theorem blockShader_uniform_in_block :
    (wrap blockShader).source ≠ blockShader ∧ ∃ e, entryOf blockShader = some e ∧
      ∃ ahead t, e.Adds blockShader (wrap blockShader).source ahead t ∧ opened ahead = closed ahead + 1 := by
  have hchanged : (wrap blockShader).source ≠ blockShader := source_ne_of_plan (by decide +kernel)
  obtain ⟨e, he, hdepth, hstar⟩ := blockShader_entry
  have hscoped := scoped_wrap hchanged he
  obtain ⟨ahead, t, hadds⟩ := hscoped.added hstar
  exact ⟨hchanged, e, he, ahead, t, hadds, hdepth ▸ hscoped.depth ahead t hadds⟩

end ShaderLoom.Morph
