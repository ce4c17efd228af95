/-
  ShaderLoom.Proofs.Program.Sites — what the morph pass meets in a source.

  Before the entry point of a source the braces balance (`through_layout`), and no words of the pass
  stand there but in the names of constants (`eq_identifier_of_keyword`). A constant may even be named
  `main`: the type before it is not one that an entry point returns (`Guarded`), so the first heading
  is that of the entry point (`not_isHeading_before`). The uniforms are the first declarations and
  the only ones (`exists_statements`).
-/

import ShaderLoom.Proofs.Morph.Anchor
import ShaderLoom.Proofs.Program.Outline

namespace ShaderLoom.Program

open ShaderLoom.Lexeme ShaderLoom.Morph ShaderLoom.Text

/-! ## Words -/

variable {color : String × Rgb} {x : Lexeme}

theorem mem_constantLexemes (h : x ∈ constantLexemes color) : x.2 = identifier color.1 ∨
    x ∈ [name "const", name "float3", mark '=', mark '(', mark ',', mark ')', mark ';'] ∨ Numeral x.2 := by
  have hchannel (y : Binary64) (hx : x ∈ channelLexemes y) : Numeral x.2 := fun c hc =>
    Literal.numeral_literal y (some 2) c (mem_of_mem_significant hx hc)
  simp only [constantLexemes, List.mem_append, List.mem_cons, List.not_mem_nil, or_false] at h ⊢
  rcases h with (h | h | rfl | h | h | h) | h | h | h | h | h | h | h
  all_goals first
    | exact Or.inl rfl
    | exact Or.inr (Or.inr (hchannel _ h))
    | simp [h]

/-- No lexeme of a constant is a word of the morph pass, its name apart. -/
theorem eq_identifier_of_keyword (h : x ∈ constantLexemes color) (hx : x.2 ∈ keywords) :
    x.2 = identifier color.1 := by
  have hfixed : ∀ x ∈ [name "const", name "float3", mark '=', mark '(', mark ',', mark ')', mark ';'],
      x.2 ∉ keywords := by
    decide
  have hnumeral : ∀ cs ∈ keywords, ¬Numeral cs := by decide
  rcases mem_constantLexemes h with h | h | h
  · exact h
  · exact absurd hx (hfixed x h)
  · exact absurd h (hnumeral _ hx)

variable {c : ShaderConfig} {effect : EffectKind} {noise : NoiseKind}

/-- The lexemes between the uniforms and the entry point. -/
def middleLexemes (c : ShaderConfig) (effect : EffectKind) (noise : NoiseKind) : List Lexeme :=
  (constants c).flatMap constantLexemes ++ (libraries effect noise).flatMap (significant ·.toList)

theorem not_keyword_middle {cs : List Char} (hcs : cs ∈ keywords) (hnames : ∀ color ∈ constants c, identifier color.1 ≠ cs) :
    ∀ x ∈ middleLexemes c effect noise, x.2 ≠ cs := by
  intro x hx heq
  rcases List.mem_append.mp hx with hx | hx
  · obtain ⟨color, hcolor, hx⟩ := List.mem_flatMap.mp hx
    exact hnames color hcolor ((eq_identifier_of_keyword hx (heq ▸ hcs)).symm.trans heq)
  · obtain ⟨f, hf, hx⟩ := List.mem_flatMap.mp hx
    exact (library_of_mem hf).words x hx (heq ▸ hcs)

/-! ## Braces -/

theorem through_flat {xs : List Lexeme} (h : ∀ x ∈ xs, isFlat x = true) (d : Nat) : through d xs = some d := by
  induction xs with
  | nil => rfl
  | cons x xs ih =>
    obtain ⟨hx, hxs⟩ := List.forall_mem_cons.mp h
    simp only [isFlat, Bool.and_eq_true, Bool.not_eq_true'] at hx
    rw [through_cons, depthBehind, hx.1, hx.2]
    exact ih hxs

theorem through_flatMap {α : Type} {f : α → List Lexeme} {l : List α} (h : ∀ a ∈ l, through 0 (f a) = some 0) :
    through 0 (l.flatMap f) = some 0 := by
  induction l with
  | nil => rfl
  | cons a l ih =>
    obtain ⟨ha, hl⟩ := List.forall_mem_cons.mp h
    rw [List.flatMap_cons, through_append_of ha]
    exact ih hl

theorem through_declared (b : Bool) : through 0 ((declared b).flatMap uniformItem) = some 0 := by
  have hall : ∀ b : Bool, through 0 ((declared b).flatMap uniformItem) = some 0 := by decide
  exact hall b

theorem flat_constant (h : Shape.Identifier color.1) : ∀ x ∈ constantLexemes color, isFlat x = true := by
  obtain ⟨xs, hxs, hinner⟩ := exists_inner h
  rw [hxs]
  refine List.forall_mem_append.mpr ⟨fun x hx => ?_, by decide⟩
  have := hinner x hx
  simp only [isInner, Bool.and_eq_true] at this
  rw [isFlat, this.1.2, this.2]
  rfl

theorem mem_constants (h : color ∈ constants c) : color ∈ c.palette.colors := by
  rw [constants] at h
  split at h
  · cases h
  · exact h

theorem through_middle (hnames : ∀ color ∈ c.palette.colors, Shape.Identifier color.1) :
    through 0 (middleLexemes c effect noise) = some 0 := by
  have hconstants : through 0 ((constants c).flatMap constantLexemes) = some 0 :=
    through_flatMap fun color hcolor => through_flat (flat_constant (hnames color (mem_constants hcolor))) 0
  rw [middleLexemes, through_append_of hconstants]
  exact through_flatMap fun f hf => (library_of_mem hf).balanced

theorem flat_body {body : List Char} (h : Quiet body) : ∀ x ∈ significant body, isFlat x = true := by
  intro x hx
  have := h.words x hx
  rw [isQuiet, Bool.and_eq_true, Bool.and_eq_true] at this
  exact this.1.1

/-! ## The heading -/

/-- Before every `main` stands something that no entry point returns. -/
def Guarded (xs : List Lexeme) : Prop :=
  ∀ p y q, xs = p ++ y :: q → word y = "main" → ∃ p' x, p = p' ++ [x] ∧ word x ∉ vectorTypes

theorem Guarded.append {xs ys : List Lexeme} (hxs : Guarded xs) (hys : Guarded ys) : Guarded (xs ++ ys) := by
  intro p y q hcut hy
  rcases List.append_eq_append_iff.mp hcut with ⟨a, rfl, hys'⟩ | ⟨a, hxs', hq⟩
  · obtain ⟨p', x, rfl, hx⟩ := hys a y q hys' hy
    exact ⟨xs ++ p', x, by rw [List.append_assoc], hx⟩
  · cases a with
    | nil =>
      obtain ⟨p', x, hp, hx⟩ := hys [] y q (by simpa using hq.symm) hy
      exact absurd hp (by simp)
    | cons z a =>
      obtain ⟨rfl, rfl⟩ := List.cons.inj hq
      exact hxs p y a hxs' hy

theorem guarded_of_none {xs : List Lexeme} (h : ∀ x ∈ xs, word x ≠ "main") : Guarded xs := by
  rintro p y q rfl hy
  exact absurd hy (h y (by simp))

theorem Guarded.flatMap {α : Type} {f : α → List Lexeme} {l : List α} (h : ∀ a ∈ l, Guarded (f a)) :
    Guarded (l.flatMap f) := by
  induction l with
  | nil => exact guarded_of_none fun x hx => absurd hx List.not_mem_nil
  | cons a l ih =>
    obtain ⟨ha, hl⟩ := List.forall_mem_cons.mp h
    exact ha.append (ih hl)

theorem word_eq_iff {s : String} {cs : List Char} (hs : s.toList = cs) : word x = s ↔ x.2 = cs := by
  rw [word, ← String.toList_inj, String.toList_ofList, hs]

theorem not_main_of_numeral (h : Numeral x.2) : word x ≠ "main" := by
  intro heq
  rw [(word_eq_iff String.toList_ofList).mp heq] at h
  exact absurd h (by decide)

theorem guarded_constant (color : String × Rgb) : Guarded (constantLexemes color) := by
  have hstart : Guarded [name "const", name "float3", (.name, identifier color.1)] := by
    have hconst : word (name "const") ≠ "main" := by decide
    have htype : word (name "float3") ≠ "main" ∧ word (name "float3") ∉ vectorTypes := by decide
    intro p y q hcut hy
    rcases p with _ | ⟨a, _ | ⟨b, _ | ⟨d, p⟩⟩⟩ <;> simp only [List.cons_append, List.nil_append, List.cons.injEq] at hcut
    · exact absurd (hcut.1 ▸ hy) hconst
    · exact absurd (hcut.2.1 ▸ hy) htype.1
    · exact ⟨[a], b, rfl, hcut.2.1 ▸ htype.2⟩
    · exact absurd hcut.2.2.2 (by simp)
  have hmark : ∀ x ∈ [mark '=', name "float3", mark '(', mark ',', mark ')', mark ';'], word x ≠ "main" := by
    decide
  have hchannel (y : Binary64) : ∀ x ∈ channelLexemes y, word x ≠ "main" := fun x hx =>
    not_main_of_numeral fun c hc => Literal.numeral_literal y (some 2) c (mem_of_mem_significant hx hc)
  have hrest : Guarded ([mark '=', name "float3", mark '('] ++ (channelLexemes color.2.red ++
      mark ',' :: (channelLexemes color.2.green ++ mark ',' :: (channelLexemes color.2.blue ++ [mark ')', mark ';'])))) := by
    refine guarded_of_none ?_
    simp only [List.forall_mem_cons] at hmark
    obtain ⟨hassign, htype, hbracket, hcomma, hend, hsemicolon, -⟩ := hmark
    simp only [List.forall_mem_append, List.forall_mem_cons, List.not_mem_nil, false_implies, implies_true, and_true]
    exact ⟨⟨hassign, htype, hbracket⟩, hchannel _, hcomma, hchannel _, hcomma, hchannel _, hend, hsemicolon⟩
  exact hstart.append hrest

/-- The lexemes before the entry point. -/
def beforeLexemes (c : ShaderConfig) (effect : EffectKind) (noise : NoiseKind) : List Lexeme :=
  (declared c.useUniformColors.isTrue).flatMap uniformItem ++ middleLexemes c effect noise

theorem guarded_before (c : ShaderConfig) (effect : EffectKind) (noise : NoiseKind) :
    Guarded (beforeLexemes c effect noise) := by
  have huniforms : ∀ b : Bool, ∀ x ∈ (declared b).flatMap uniformItem, word x ≠ "main" := by decide
  have hlibraries : Guarded ((libraries effect noise).flatMap (significant ·.toList)) := by
    refine .flatMap fun f hf => guarded_of_none fun x hx heq => (library_of_mem hf).words x hx ?_
    rw [(word_eq_iff String.toList_ofList).mp heq]
    exact List.mem_cons_self
  exact (guarded_of_none (huniforms _)).append ((Guarded.flatMap fun color _ => guarded_constant color).append hlibraries)

/-- No heading starts before that of the entry point. -/
theorem not_isHeading_before {before rest p q : List Lexeme} (hguarded : Guarded before)
    (hcut : before ++ (headingLexemes ++ rest) = p ++ q) (hlen : p.length < before.length) : isHeading q = false := by
  rw [← Bool.not_eq_true]
  intro hq
  obtain ⟨ret, main, opening, type, name, closing, brace, rest', rfl, hret, hmain, -⟩ := isHeading_iff_lexemes.mp hq
  rcases List.append_eq_append_iff.mp hcut with ⟨a, rfl, -⟩ | ⟨r, hbefore, hq'⟩
  · rw [List.length_append] at hlen
    omega
  have hfirst : word (Morph.name "half4") ≠ "main" := by decide
  rcases r with _ | ⟨ret', _ | ⟨main', r⟩⟩ <;> simp only [List.cons_append, List.nil_append, headingLexemes, List.cons.injEq] at hq'
  · rw [hbefore, List.append_nil] at hlen
    omega
  · exact hfirst (hq'.2.1 ▸ hmain)
  · obtain ⟨rfl, rfl, -⟩ := hq'
    obtain ⟨p', x, hp, hx⟩ := hguarded (p ++ [ret]) main r (by rw [hbefore, List.append_assoc]; rfl) hmain
    obtain ⟨-, hx'⟩ := List.append_inj' hp rfl
    cases hx'
    exact hx hret

/-! ## Declarations -/

theorem token_of_name {t : Token} {s : String} (h : t.lexeme = name s) : t.kind = .name ∧ t.text = s := by
  obtain ⟨hkind, htext⟩ := Prod.mk.inj h
  exact ⟨hkind, String.toList_inj.mp htext⟩

theorem statements_of_none {ps : List Placed} (h : ∀ p ∈ ps, p.1.text ≠ "uniform") :
    uniformStatementsFrom none ps = [] := by
  induction ps with
  | nil => rfl
  | cons p ps ih =>
    obtain ⟨hp, hps⟩ := List.forall_mem_cons.mp h
    rw [uniformStatementsFrom, if_neg fun hu => hp hu.2]
    exact ih hps

/-- Neither ends a declaration nor changes the depth. -/
def Plain (uniform : String × String) : Prop := ∀ s ∈ [uniform.1, uniform.2], isInner (name s) = true

instance (uniform : String × String) : Decidable (Plain uniform) :=
  inferInstanceAs (Decidable (∀ s ∈ [uniform.1, uniform.2], isInner (name s) = true))

theorem placed_of_flat {d : Nat} {t : Token} (h : isFlat t.lexeme = true) (ts : List Token) :
    placed d (t :: ts) = (t, d) :: placed d ts := by
  simp only [isFlat, Bool.and_eq_true, Bool.not_eq_true'] at h
  rw [placed, depthBehind, h.1, h.2]
  rfl

/-- The declarations at the start of a source, one for each uniform, and the semicolon of the last. -/
theorem exists_statements {l : List (String × String)} (hl : ∀ uniform ∈ l, Plain uniform) {ts : List Token}
    (hts : ts.map Token.lexeme = l.flatMap uniformItem) (us : List Token) :
    ∃ statements, uniformStatementsFrom none (placed 0 (ts ++ us)) =
        statements ++ uniformStatementsFrom none (placed 0 us) ∧
      declaredNames statements = l.flatMap (fun uniform => ["uniform", uniform.1, uniform.2]) ∧
        statements.getLast?.map (·.semicolon) = ts.getLast? := by
  induction l generalizing ts with
  | nil =>
    rw [List.flatMap_nil, List.map_eq_nil_iff] at hts
    subst hts
    exact ⟨[], rfl, rfl, rfl⟩
  | cons uniform l ih =>
    obtain ⟨hplain, hl⟩ := List.forall_mem_cons.mp hl
    obtain ⟨htype, hname, -⟩ := (List.forall_mem_cons.mp hplain).imp_right List.forall_mem_cons.mp
    rw [List.flatMap_cons, uniformItem, List.cons_append, List.cons_append, List.cons_append, List.cons_append,
      List.nil_append] at hts
    obtain ⟨keyword, ts, rfl, hkeyword, hts⟩ := List.map_eq_cons_iff.mp hts
    obtain ⟨type, ts, rfl, htypeToken, hts⟩ := List.map_eq_cons_iff.mp hts
    obtain ⟨n, ts, rfl, hn, hts⟩ := List.map_eq_cons_iff.mp hts
    obtain ⟨semicolon, ts, rfl, hsemicolon, hts⟩ := List.map_eq_cons_iff.mp hts
    obtain ⟨statements, heq, hnames, hlast⟩ := ih hl hts
    have hflat : ∀ {t : Token} {x : Lexeme}, t.lexeme = x → isInner x = true → isFlat t.lexeme = true ∧ t.text ≠ ";" := by
      rintro t x rfl hx
      simp only [isInner, Bool.and_eq_true, bne_iff_ne] at hx
      refine ⟨by rw [isFlat, hx.1.2, hx.2]; rfl, fun ht => hx.1.1 ?_⟩
      rw [Token.lexeme, ht]
      rfl
    obtain ⟨hkeywordFlat, -⟩ := hflat hkeyword (by decide)
    obtain ⟨htypeFlat, htypeNot⟩ := hflat htypeToken htype
    obtain ⟨hnameFlat, hnameNot⟩ := hflat hn hname
    have hsemicolonFlat : isFlat semicolon.lexeme = true := by rw [hsemicolon]; rfl
    have hsemicolonText : semicolon.text = ";" := String.toList_inj.mp (Prod.mk.inj hsemicolon).2
    obtain ⟨hkeywordKind, hkeywordText⟩ := token_of_name hkeyword
    obtain ⟨htypeKind, htypeText⟩ := token_of_name htypeToken
    obtain ⟨hnameKind, hnameText⟩ := token_of_name hn
    refine ⟨⟨[keyword, type, n], semicolon⟩ :: statements, ?_, ?_, ?_⟩
    · simp only [List.cons_append, placed_of_flat hkeywordFlat, placed_of_flat htypeFlat, placed_of_flat hnameFlat,
        placed_of_flat hsemicolonFlat, uniformStatementsFrom, hkeywordText, htypeNot, hnameNot, hsemicolonText, heq]
      simp
    · rw [declaredNames, List.flatMap_cons, List.flatMap_cons, ← hnames]
      simp [hkeywordKind, htypeKind, hnameKind, hkeywordText, htypeText, hnameText, declaredNames]
    · simp only [List.getLast?_cons, ← hlast]
      cases statements.getLast? <;> rfl

end ShaderLoom.Program
