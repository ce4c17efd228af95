/-
  ShaderLoom.Proofs.Morph.Entry — the entry point in the text that the pass makes.

  What is spliced in before an entry point is balanced and begins and completes no heading, so the
  first heading at file scope is the same as before (`FirstHeading.spliced`); the swapped arguments
  have the braces of the old ones (`through_lexemeSwaps`). So the new text is balanced, and the
  entry point that is found in it is the one of the old text (`entry_of_splice`).
-/

import ShaderLoom.Proofs.Morph.Splice

namespace ShaderLoom.Morph

open ShaderLoom.Token ShaderLoom.Text
open ShaderLoom.Lexeme hiding significant isSignificant

/-- The entry point that the pass finds in a source: none without balance. -/
def entryOf (source : String) : Option Entry :=
  let tokens := significant (tokenize source)
  (braceDepths tokens).bind fun depths => findEntry (tokens.zip depths)

theorem entryOf_eq_some_iff {source : String} {entry : Entry} :
    entryOf source = some entry ↔ through 0 ((significant (tokenize source)).map lexeme) = some 0 ∧
      ∃ before w rest, FirstHeading 0 (significant (tokenize source)) before w rest ∧
        entry = ⟨placed 0 before, w.ret, w.name.text, w.dialect, rest⟩ := by
  unfold entryOf
  rw [Option.bind_eq_some_iff]
  constructor
  · intro h
    obtain ⟨depths, hdepths, hentry⟩ := h
    have hbal := exists_depths_iff.mp ⟨depths, hdepths⟩
    rw [zip_depthsFrom hdepths] at hentry
    exact ⟨hbal, (findEntry_eq_some_iff hbal).mp hentry⟩
  · intro h
    obtain ⟨hbal, hentry⟩ := h
    obtain ⟨depths, hdepths⟩ := exists_depths_iff.mpr hbal
    exact ⟨depths, hdepths, by rw [zip_depthsFrom hdepths]; exact (findEntry_eq_some_iff hbal).mpr hentry⟩

/-! ## No heading before -/

/-- No heading at depth zero starts in the lexemes `xs`, which start at the depth `d` and have `rest` behind them. -/
def Free (d : Nat) (xs rest : List Lexeme) : Prop :=
  ∀ p q, xs ++ rest = p ++ q → p.length < xs.length → through d p = some 0 → isHeading q = false

namespace Free

variable {d : Nat} {xs ys rest : List Lexeme}

theorem append (h : Free d xs (ys ++ rest)) (h' : ∀ e, through d xs = some e → Free e ys rest) :
    Free d (xs ++ ys) rest := by
  intro p q hcut hlen hdepth
  rw [List.append_assoc] at hcut
  by_cases hp : p.length < xs.length
  · exact h p q hcut hp hdepth
  · obtain ⟨b, rfl, hb⟩ : ∃ b, p = xs ++ b ∧ ys ++ rest = b ++ q := by
      rcases List.append_eq_append_iff.mp hcut with ⟨b, hpb, hb⟩ | ⟨a, rfl, ha⟩
      · exact ⟨b, hpb, hb⟩
      · rw [List.length_append] at hp
        obtain rfl : a = [] := List.length_eq_zero_iff.mp (by omega)
        exact ⟨[], by simp, by simpa using ha.symm⟩
    rw [through_append] at hdepth
    obtain ⟨e, he, hb'⟩ := Option.bind_eq_some_iff.mp hdepth
    exact h' e he b q hb (by simp only [List.length_append] at hlen; omega) hb'

theorem left (h : Free d (xs ++ ys) rest) : Free d xs (ys ++ rest) := by
  intro p q hcut hlen hdepth
  exact h p q (by rw [List.append_assoc, hcut]) (by rw [List.length_append]; omega) hdepth

theorem right (h : Free d (xs ++ ys) rest) {e : Nat} (he : through d xs = some e) : Free e ys rest := by
  intro p q hcut hlen hdepth
  refine h (xs ++ p) q (by rw [List.append_assoc, hcut, List.append_assoc]) ?_
    (by rw [through_append_of he, hdepth])
  simp only [List.length_append]
  omega

/-- Lexemes that keep headings may be put behind, whatever follows them. -/
theorem insertion (h : Free d xs rest) (hys : KeepsHeadings ys) (rest' : List Lexeme) :
    Free d xs (ys ++ rest') := by
  intro p q hcut hlen hdepth
  rcases List.append_eq_append_iff.mp hcut with ⟨b, rfl, -⟩ | ⟨a, rfl, rfl⟩
  · simp only [List.length_append] at hlen
    omega
  · have ha : a ≠ [] := by
      intro heq
      subst heq
      simp at hlen
    rw [← Bool.not_eq_true]
    intro hq
    have := h p (a ++ rest) (by simp) hlen hdepth
    rw [isHeading_of_insertion hys ha hq rest] at this
    cases this

theorem of_keeps (hxs : KeepsHeadings xs) : Free d xs rest := by
  intro p q hcut hlen _
  rcases List.append_eq_append_iff.mp hcut with ⟨b, rfl, -⟩ | ⟨a, rfl, rfl⟩
  · simp only [List.length_append] at hlen
    omega
  · refine not_isHeading_of_insertion hxs rfl ?_
    intro heq
    subst heq
    simp at hlen

end Free

theorem FirstHeading.free {d : Nat} {ts before rest : List Token} {w : Heading}
    (h : FirstHeading d ts before w rest) :
    Free d (before.map lexeme) ((w.tokens ++ rest).map lexeme) := by
  intro p q hcut hlen
  exact h.first p q (by rw [h.cut, List.map_append, hcut]) (by simpa using hlen)

/-- Lexemes spliced in at two places before a heading. -/
theorem Free.spliced {A U B H rest : List Lexeme} (h : Free 0 (A ++ B) rest) (hU : KeepsHeadings U)
    (hH : KeepsHeadings H) (hbal : through 0 U = some 0) (rest' : List Lexeme) :
    Free 0 (A ++ (U ++ (B ++ H))) rest' := by
  refine Free.append ?_ fun e he => Free.append (.of_keeps hU) fun e' he' =>
    Free.append ?_ fun _ _ => .of_keeps hH
  · rw [List.append_assoc]
    exact h.left.insertion hU _
  · rw [through_balanced hbal, Option.some.injEq] at he'
    subst he'
    exact (h.right he).insertion hH rest'

/-! ## The heading itself -/

/-- Lexemes that start with those of a heading start with one like it. -/
theorem exists_heading {ts : List Token} {w : Heading} {rest : List Lexeme} (hw : w.Valid)
    (hts : ts.map lexeme = w.tokens.map lexeme ++ rest) :
    ∃ (w' : Heading) (more : List Token), ts = w'.tokens ++ more ∧ w'.Valid ∧ w'.ret.text = w.ret.text ∧
      w'.name.text = w.name.text ∧ w'.dialect = w.dialect ∧ more.map lexeme = rest := by
  obtain ⟨ts, more, rfl, htokens, hmore⟩ := List.map_eq_append_iff.mp hts
  simp only [Heading.tokens, List.map_cons, List.map_nil, List.map_eq_cons_iff,
    List.map_eq_nil_iff] at htokens
  obtain ⟨a, _, rfl, ha, b, _, rfl, hb, c, _, rfl, hc, d, _, rfl, hd, e, _, rfl, he, f, _, rfl, hf,
      g, _, rfl, hg, rfl⟩ :=
    htokens
  have htext : ∀ {t u : Token}, t.lexeme = u.lexeme → t.text = u.text := fun h =>
    String.toList_inj.mp (congrArg Prod.snd h)
  refine ⟨⟨a, b, c, d, e, f, g⟩, more, rfl, ?_, htext ha, htext he, ?_, hmore⟩
  · simp only [Heading.Valid, htext ha, htext hb, htext hc, htext hd, htext hf, htext hg]
    have hkind : e.kind = w.name.kind := congrArg Prod.fst he
    rw [hkind]
    exact hw
  · simp only [Heading.dialect, htext ha, htext hd]

/-! ## Braces of the swapped arguments -/

theorem through_of_no_brace {xs : List Lexeme} (h : ∀ x ∈ xs, opens x = false ∧ closes x = false) (d : Nat) :
    through d xs = some d := by
  induction xs with
  | nil => rfl
  | cons x xs ih =>
    obtain ⟨ho, hc⟩ := h x (by simp)
    have hx : depthBehind d x = some d := by simp [depthBehind, ho, hc]
    rw [through_cons, hx]
    exact ih fun y hy => h y (by simp [hy])

theorem no_brace_of_isName {cs : List Char} (h : IsName cs) : ∀ c, isNameStart c = false → cs ≠ [c] := by
  intro c hc heq
  subst heq
  rw [h.1] at hc
  cases hc

theorem through_callLexemes {parameter : String} (hp : IsName parameter.toList) (d : Nat) :
    through d (callLexemes parameter ++ [mark ')']) = some d := by
  have hname := no_brace_of_isName hp
  have hopens : opens (name parameter) = false := by simpa [opens, name] using hname '\x7b' (by decide)
  have hcloses : closes (name parameter) = false := by simpa [closes, name] using hname '\x7d' (by decide)
  refine through_of_no_brace ?_ d
  simp only [callLexemes, List.cons_append, List.nil_append, List.forall_mem_cons, List.not_mem_nil,
    false_implies, implies_true, hopens, hcloses, and_true, true_and]
  decide

/-- A number literal has no braces. -/
theorem through_unit {ts : List Token} (h : isUnit ts = true) (d : Nat) :
    through d (ts.map lexeme) = some d := by
  unfold isUnit at h
  split at h
  · rename_i t
    have hne : ∀ s : String,
        Reading.number? (Text.trimEnd Lexeme.isSuffix s.toList) ≠ some Binary64.one → t.text ≠ s := by
      intro s hs heq
      subst heq
      simp only [Bool.and_eq_true, beq_iff_eq] at h
      exact hs h.2
    refine through_of_no_brace (fun x hx => ?_) d
    obtain rfl : x = t.lexeme := by simpa using hx
    constructor
    · rw [← Bool.not_eq_true, opens_lexeme]
      exact hne _ (by decide)
    · rw [← Bool.not_eq_true, closes_lexeme]
      exact hne _ (by decide)
  · cases h

theorem through_newLexemes {parameter : String} (hp : IsName parameter.toList) (c : Cut) (d : Nat) :
    through d (c.newLexemes parameter) = through d ((significant c.argument).map lexeme) := by
  have hscalar : depthBehind d (name (scalarOf c.vector)) = some d := by
    unfold scalarOf
    split <;> rfl
  have hmark : ∀ {e : Nat} {b : Char}, b ∈ ['(', ')', '*'] → depthBehind e (mark b) = some e := by
    intro e b hb
    simp only [List.mem_cons, List.not_mem_nil, or_false] at hb
    rcases hb with rfl | rfl | rfl <;> rfl
  have hcall := fun e => through_callLexemes hp e
  unfold Cut.newLexemes
  split
  · rename_i hunit
    rw [through_unit hunit, through_cons, hscalar, Option.bind_some, through_cons, hmark (by simp),
      Option.bind_some, hcall]
  · rw [through_cons, hscalar, Option.bind_some, through_cons, hmark (by simp), Option.bind_some,
      through_cons, hmark (by simp), Option.bind_some, through_append]
    -- behind the argument come a bracket, the star and the call
    have hbehind :
        (fun e => through e (mark ')' :: mark '*' :: (callLexemes parameter ++ [mark ')']))) = some := by
      funext e
      rw [through_cons, hmark (by simp), Option.bind_some, through_cons, hmark (by simp),
        Option.bind_some, hcall]
    rw [hbehind, Option.bind_fun_some]

theorem through_lexemeSwaps {parameter : String} (hp : IsName parameter.toList) (cuts : List Cut)
    (rest : List Lexeme)
    (d : Nat) :
    through d (Swap.after (cuts.map (Cut.lexemeSwap parameter)) ++ rest) =
      through d (Swap.before (cuts.map (Cut.lexemeSwap parameter)) ++ rest) := by
  induction cuts generalizing d with
  | nil => rfl
  | cons c cuts ih =>
    simp only [List.map_cons, Swap.after_cons, Swap.before_cons, Cut.lexemeSwap, List.append_assoc] at ih ⊢
    rw [through_append, through_append]
    refine congrArg _ (funext fun e => ?_)
    rw [through_append, through_append, through_newLexemes hp]
    exact congrArg _ (funext ih)

/-! ## The new text -/

/-- A heading has no marks but its brackets and its brace. -/
theorem Heading.text_ne {w : Heading} (hw : w.Valid) (hname : IsName w.name.text.toList) {s : String}
    (hs : ¬IsName s.toList) (hbracket : s ∉ ["(", ")", "\x7b"]) : ∀ t ∈ w.tokens, t.text ≠ s := by
  obtain ⟨hret, hmain, hopening, htype, -, hclosing, hbrace⟩ := hw
  have hret' : IsName w.ret.text.toList := (by decide : ∀ v ∈ vectorTypes, IsName v.toList) _ hret
  have htype' : IsName w.type.text.toList := (by decide : ∀ v ∈ pairTypes, IsName v.toList) _ htype
  have hmain' : IsName w.main.text.toList := by rw [hmain]; decide
  intro t ht heq
  subst heq
  simp only [Heading.tokens, List.mem_cons, List.not_mem_nil, or_false] at ht hbracket
  rcases ht with rfl | rfl | rfl | rfl | rfl | rfl | rfl
  · exact hs hret'
  · exact hs hmain'
  · exact hbracket (Or.inl hopening)
  · exact hs htype'
  · exact hs hname
  · exact hbracket (Or.inr (Or.inl hclosing))
  · exact hbracket (Or.inr (Or.inr hbrace))

/-- The heading is in the stretch kept before the first argument: a heading has no comma. -/
theorem Found.Of.newLexemes_eq {f : Found} {source : String} (hf : f.Of source) :
    ∃ rest, f.newLexemes = f.heading.tokens.map lexeme ++ rest := by
  obtain ⟨c, cuts, hcuts⟩ := List.exists_cons_of_ne_nil hf.nonempty
  obtain ⟨-, comma, -, -, hcomma, hmem, -⟩ := (hf.sound c (by simp [hcuts])).comma
  have honward := hf.significant_entry
  rw [hcuts, Cut.tokens_cons, List.append_assoc, significant_append] at honward
  have hnot : comma ∉ f.heading.tokens := fun hmem =>
    Heading.text_ne hf.entry.valid hf.entry.isName (by decide) (by decide) comma hmem hcomma
  rcases List.append_eq_append_iff.mp honward with ⟨more, hheading, -⟩ | ⟨more, hsig, -⟩
  · exact absurd (by rw [hheading]; exact List.mem_append_left _ hmem) hnot
  · refine ⟨more.map lexeme ++ (c.newLexemes f.heading.name.text ++
      (Swap.after (cuts.map (Cut.lexemeSwap f.heading.name.text)) ++ (significant f.tail).map lexeme)), ?_⟩
    simp only [Found.newLexemes, Found.lexemeSwaps, hcuts, List.map_cons, Swap.after_cons,
      Cut.lexemeSwap, hsig, List.map_append, List.append_assoc]

theorem Found.Of.entryOf_eq {f : Found} {source : String} (hf : f.Of source) :
    entryOf source = some f.entry :=
  entryOf_eq_some_iff.mpr ⟨hf.balanced, f.before, f.heading, f.after, hf.entry, rfl⟩

theorem Found.Of.lexemes_eq {f : Found} {source : String} (hf : f.Of source) :
    (significant (tokenize source)).map lexeme =
      f.before.map lexeme ++ (Swap.before f.lexemeSwaps ++ (significant f.tail).map lexeme) := by
  rw [Found.lexemeSwaps, Cut.before_lexemeSwaps, hf.tokens, significant_append, significant_append,
    List.map_append, List.map_append]
  rfl

/-- The entry point is found again in a text with these lexemes. -/
theorem entry_of_splice {f : Found} {source made : String} (hf : f.Of source) {A B : List Token}
    (hbefore : f.before = A ++ B)
    (hmade : (significant (tokenize made)).map lexeme = A.map lexeme ++ (f.addedLexemes ++ (B.map lexeme ++
      (helperLexemes f.heading.dialect ++ f.newLexemes)))) :
    ∃ entry, entryOf made = some entry ∧ entry.returnType.text = f.heading.ret.text ∧
      entry.parameter = f.heading.name.text ∧ entry.dialect = f.heading.dialect := by
  obtain ⟨hU, hUbal, -⟩ := uniformLexemes_spec (declaredNames f.statements) f.heading.dialect
  obtain ⟨hH, hHbal⟩ := helperLexemes_spec f.heading.dialect
  obtain ⟨newrest, hnew⟩ := hf.newLexemes_eq
  have hbal := hf.balanced
  rw [hf.lexemes_eq, hbefore, List.map_append, List.append_assoc] at hbal
  obtain ⟨k, hA, hbal⟩ := Option.bind_eq_some_iff.mp ((through_append _ _ _).symm.trans hbal)
  have hdepth := hf.entry.depth
  rw [hbefore, List.map_append, through_append_of hA] at hdepth
  have hmadebal : through 0 ((significant (tokenize made)).map lexeme) = some 0 := by
    rw [hmade, through_append_of hA, Found.addedLexemes, through_append_of (through_balanced hUbal k),
      through_append_of hdepth, through_append_of hHbal]
    rw [through_append_of hdepth] at hbal
    exact (through_lexemeSwaps hf.entry.isName f.cuts _ 0).trans hbal
  have hcut : (significant (tokenize made)).map lexeme = (A.map lexeme ++ (f.addedLexemes ++ (B.map lexeme ++
      helperLexemes f.heading.dialect))) ++ (f.heading.tokens.map lexeme ++ newrest) := by
    rw [hmade, hnew]
    simp only [List.append_assoc]
  obtain ⟨before, onward, htokens, hbefore', honward⟩ := List.map_eq_append_iff.mp hcut
  obtain ⟨w, rest, rfl, hvalid, hret, hname, hdialect, hrest⟩ := exists_heading hf.entry.valid honward
  have hfree := hf.entry.free
  rw [hbefore, List.map_append] at hfree
  refine ⟨⟨placed 0 before, w.ret, w.name.text, w.dialect, rest⟩,
    entryOf_eq_some_iff.mpr ⟨hmadebal, before, w, rest,
      ⟨htokens, hvalid, ?_, fun p q hpq hlen hp => ?_⟩, rfl⟩, hret, hname,
    hdialect⟩
  · rw [hbefore', through_append_of hA, Found.addedLexemes, through_append_of (through_balanced hUbal k),
      through_append_of hdepth]
    exact hHbal
  · refine hfree.spliced hU hH hUbal (f.heading.tokens.map lexeme ++ newrest) p q (hcut.symm.trans hpq) ?_ hp
    have := congrArg List.length hbefore'
    rw [List.length_map] at this
    exact Nat.lt_of_lt_of_eq hlen this

end ShaderLoom.Morph
