/-
  ShaderLoom.Proofs.Program.Morphed — a source made to dissolve.

  Where a source is changed is known before the pass looks: the declarations go below the last
  uniform, the helpers right before the entry point, and the alpha of its one return is replaced
  (`Morphed`). The pass finds exactly these places (`plan_layout`), in the source of every accepted
  configuration whose name stays on its line and that has no constant named like a word of the pass
  (`wrap_compose`).
-/

import ShaderLoom.Proofs.Morph.Changed
import ShaderLoom.Proofs.Program.Sites

namespace ShaderLoom.Program

open ShaderLoom.Token ShaderLoom.Morph ShaderLoom.Text
open ShaderLoom.Lexeme hiding significant isSignificant

/-! ## The entry point as tokens -/

theorem text_of_mark {t : Token} {c : Char} (h : t.lexeme = mark c) : t.text = String.ofList [c] :=
  String.ofList_toList.symm.trans (congrArg String.ofList (Prod.mk.inj h).2)

theorem heading_tokens {ts : List Token} (h : ts.map lexeme = headingLexemes) :
    ∃ w : Heading, ts = w.tokens ∧ w.Valid ∧ w.name.text = "xy" ∧ w.dialect = .float := by
  simp only [headingLexemes, List.map_eq_cons_iff, List.map_eq_nil_iff] at h
  obtain ⟨ret, _, rfl, hret, main, _, rfl, hmain, opening, _, rfl, hopening, type, _, rfl, htype, n, _, rfl, hn,
    closing, _, rfl, hclosing, brace, _, rfl, hbrace, rfl⟩ := h
  obtain ⟨-, hret⟩ := token_of_name hret
  obtain ⟨-, hmain⟩ := token_of_name hmain
  obtain ⟨-, htype⟩ := token_of_name htype
  obtain ⟨hkind, hn⟩ := token_of_name hn
  refine ⟨⟨ret, main, opening, type, n, closing, brace⟩, rfl,
    ⟨?_, hmain, text_of_mark hopening, ?_, hkind, text_of_mark hclosing, text_of_mark hbrace⟩, hn, ?_⟩
  · show ret.text ∈ vectorTypes
    rw [hret]
    decide
  · show type.text ∈ pairTypes
    rw [htype]
    decide
  · rw [Heading.dialect, hret, htype]
    decide

/-- Tokens that are no `return` hold none. -/
theorem returns_append {ts : List Token} (h : ∀ t ∈ ts, t.text ≠ "return") (rest : List Token) :
    returns (ts ++ rest) = returns rest := by
  induction ts with
  | nil => rfl
  | cons t ts ih =>
    obtain ⟨ht, hts⟩ := List.forall_mem_cons.mp h
    rw [← ih hts, List.cons_append]
    rcases ts ++ rest with _ | ⟨vector, _ | ⟨opening, more⟩⟩
    · rw [returns, returns] <;> simp
    · rw [returns, returns] <;> simp
    · rw [returns, if_neg fun hret => ht hret.1]

theorem returns_final {ts : List Token} {alpha closing semicolon : Token} (hts : ts.map lexeme = returnLexemes)
    (ha : alpha.lexeme = alphaLexeme) (hclosing : closing.lexeme = mark ')') (hsemicolon : semicolon.lexeme = mark ';') :
    returns (ts ++ [alpha, closing, semicolon]) = [⟨"half4", [alpha]⟩] := by
  simp only [returnLexemes, List.map_eq_cons_iff, List.map_eq_nil_iff] at hts
  obtain ⟨ret, _, rfl, hret, vector, _, rfl, hvector, opening, _, rfl, hopening, color, _, rfl, hcolor,
    comma, _, rfl, hcomma, rfl⟩ := hts
  obtain ⟨-, hret⟩ := token_of_name hret
  obtain ⟨-, hvector⟩ := token_of_name hvector
  obtain ⟨-, hcolor⟩ := token_of_name hcolor
  have hopening : opening.text = "(" := text_of_mark hopening
  have hcomma : comma.text = "," := text_of_mark hcomma
  have hclosing : closing.text = ")" := text_of_mark hclosing
  have hsemicolon : semicolon.text = ";" := text_of_mark hsemicolon
  have halpha : alpha.text = "1.0" := String.toList_inj.mp (Prod.mk.inj ha).2
  have hhead : ret.text = "return" ∧ vectorTypes.contains vector.text ∧ opening.text = "(" := by
    rw [hvector]
    exact ⟨hret, by decide, hopening⟩
  have hinside : bracketed 0 [color, comma, alpha, closing, semicolon] = some ([color, comma, alpha], [semicolon]) := by
    simp [bracketed, opensBracket, closesBracket, hcolor, hcomma, halpha, hclosing]
  have hlast : afterLastComma 0 [color, comma, alpha] = some [alpha] := by
    simp [afterLastComma, opensBracket, closesBracket, hcolor, hcomma, halpha]
  have hsite : alphaSite? vector.text [color, comma, alpha] [semicolon] = some ⟨"half4", [alpha]⟩ := by
    simp [alphaSite?, hlast, hvector, hsemicolon]
  have hend : returns [semicolon] = [] := by rw [returns]; simp
  rw [List.cons_append, List.cons_append, List.cons_append, List.cons_append, List.cons_append, List.nil_append,
    returns_of_closed hhead hinside, hend, hsite]
  rfl

/-! ## The top as tokens -/

/-- The last lexeme of the top is the semicolon of the last uniform. -/
theorem getLast?_top {c : ShaderConfig} (htag : '\n' ∉ c.effectTag.toList) (hname : '\n' ∉ c.name.text.toList) :
    (lexemes (topText c)).getLast? = some (mark ';') := by
  have hparted : lexemes (topText c) = lexemes (headerPart c).toList ++ lexemes (apart ("// Uniforms\n" ++ uniforms c)) :=
    (header_spec htag hname).1 _
  have hall : ∀ b : Bool, (lexemes (apart ("// Uniforms\n" ++
      lines (baseUniforms ++ if b then colorUniforms else [])))).getLast? = some (mark ';') := by
    decide +kernel
  have hlast := hall c.useUniformColors.isTrue
  rw [hparted, List.getLast?_append, uniforms, hlast]
  rfl

/-! ## The plan -/

/-- What the alpha of the return becomes. -/
def morphAlpha : String := "half(getMorphAlpha(xy, u_resolution, u_morphProgress, u_morphDirection))"

/-- The declarations that a source lacks. -/
def morphUniforms : String := "\nuniform float u_morphProgress;\nuniform float u_morphDirection;"

theorem alphaEdit_one (source : List Char) {alpha : Token} (h : alpha.lexeme = alphaLexeme) :
    alphaEdit source "xy" ⟨"half4", [alpha]⟩ = ⟨alpha.start, alpha.stop, morphAlpha.toList⟩ := by
  obtain ⟨hkind, htext⟩ := Prod.mk.inj h
  have hone : (Reading.number? (trimEnd isSuffix ['1', '.', '0']) == some Binary64.one) = true := by decide +kernel
  have hunit : isUnit [alpha] = true := by
    rw [isUnit, htext, hone, hkind]
    rfl
  have hcall : "half" ++ "(" ++ "" ++ alphaCall "xy" ++ ")" = morphAlpha := by decide
  rw [alphaEdit, hunit, ← hcall]
  rfl

theorem lineEnd_here (above below : List Char) : lineEnd (above ++ '\n' :: below) above.length = above.length := by
  rw [lineEnd, List.drop_left, List.takeWhile_cons_of_neg (by decide)]
  rfl

/-- The middle starts on a line of its own. -/
theorem exists_middle (c : ShaderConfig) (effect : EffectKind) (noise : NoiseKind) :
    ∃ rest, middleText c effect noise = '\n' :: rest := by
  rw [middleText]
  cases middleParts c effect noise with
  | nil => exact ⟨_, rfl⟩
  | cons part parts => exact ⟨_, rfl⟩

/-! ## The parts as tokens -/

/-- The tokens of a source, part by part. -/
structure Parts where
  top : List Token
  middle : List Token
  front : List Token
  statements : List Token
  opening : List Token
  alpha : Token
  closing : List Token

namespace Parts

/-- The tokens of the entry point behind its heading. -/
def entry (p : Parts) : List Token := p.statements ++ (p.opening ++ p.alpha :: p.closing)

structure Of (p : Parts) (c : ShaderConfig) (effect : EffectKind) (noise : NoiseKind) (body : List Char)
    (source : String) : Prop where
  tokens : tokenize source = p.top ++ (p.middle ++ (p.front ++ p.entry))
  top : p.top.map lexeme = lexemes (topText c)
  middle : p.middle.map lexeme = lexemes (middleText c effect noise)
  front : p.front.map lexeme = lexemes heading.toList
  statements : p.statements.map lexeme = lexemes body
  opening : p.opening.map lexeme = lexemes beforeAlpha.toList
  alpha : p.alpha.lexeme = alphaLexeme
  closing : p.closing.map lexeme = lexemes afterAlpha.toList

theorem text_of_lexemes {ts : List Token} {cs : List Char} (h : ts.map lexeme = lexemes cs) : textOf ts = cs := by
  rw [← joined_map_lexeme, h, joined_lexemes]

theorem significant_of_lexemes {ts : List Token} {cs : List Char} (h : ts.map lexeme = lexemes cs) :
    (significant ts).map lexeme = Lexeme.significant cs := by
  rw [← filter_map_lexeme, h]
  rfl

section

variable {p : Parts} {c : ShaderConfig} {effect : EffectKind} {noise : NoiseKind} {body : List Char} {source : String}
variable (h : p.Of c effect noise body source)

include h

theorem Of.text : source.toList = topText c ++ (middleText c effect noise ++ (heading.toList ++ (body ++
    (beforeAlpha.toList ++ ("1.0".toList ++ afterAlpha.toList))))) := by
  have halpha : p.alpha.text.toList = "1.0".toList := (Prod.mk.inj h.alpha).2
  rw [← textOf_tokenize, h.tokens, entry]
  simp only [textOf_append, textOf_cons, text_of_lexemes h.top, text_of_lexemes h.middle, text_of_lexemes h.front,
    text_of_lexemes h.statements, text_of_lexemes h.opening, text_of_lexemes h.closing, halpha]

/-- The entry point starts where the middle ends. -/
theorem Of.start {w : Heading} (hw : significant p.front = w.tokens) :
    w.ret.start = (topText c ++ middleText c effect noise).length := by
  have hhead : (lexemes heading.toList).head? = some (name "half4") := by decide
  rw [← h.front, List.head?_map, Option.map_eq_some_iff] at hhead
  obtain ⟨ret, hret, hname⟩ := hhead
  obtain ⟨more, hmore⟩ := List.head?_eq_some_iff.mp hret
  have hsignificant : isSignificant ret = true := by
    have : Lexeme.isSignificant ret.lexeme = true := by
      rw [hname]
      rfl
    exact this
  rw [hmore, significant, List.filter_cons_of_pos hsignificant] at hw
  obtain ⟨rfl, -⟩ := List.cons.inj hw
  have hlaid := tokenize_laid source
  rw [h.tokens, hmore, ← List.append_assoc, List.cons_append] at hlaid
  rw [hlaid.place.1, textOf_append, text_of_lexemes h.top, text_of_lexemes h.middle, Nat.zero_add]

/-- The alpha stands behind the heading, the statements and the start of the return. -/
theorem Of.alpha_place : p.alpha.start = (topText c ++ middleText c effect noise).length +
      (heading.toList ++ (body ++ beforeAlpha.toList)).length ∧
    p.alpha.stop = (topText c ++ middleText c effect noise).length +
      (heading.toList ++ (body ++ beforeAlpha.toList)).length + "1.0".toList.length := by
  have halpha : p.alpha.text.toList = "1.0".toList := (Prod.mk.inj h.alpha).2
  have hcut : tokenize source = (p.top ++ (p.middle ++ (p.front ++ (p.statements ++ p.opening)))) ++
      p.alpha :: p.closing := by
    rw [h.tokens, entry]
    simp only [List.append_assoc]
  have hlaid := tokenize_laid source
  rw [hcut] at hlaid
  obtain ⟨hstart, hstop⟩ := hlaid.place
  simp only [textOf_append, text_of_lexemes h.top, text_of_lexemes h.middle, text_of_lexemes h.front,
    text_of_lexemes h.statements, text_of_lexemes h.opening, halpha, List.length_append, Nat.zero_add] at hstart hstop
  simp only [List.length_append, hstart, hstop]
  omega

theorem Of.significant_front : (significant p.front).map lexeme = headingLexemes := by
  have hheading : Lexeme.significant heading.toList = headingLexemes := by decide
  rw [significant_of_lexemes h.front, hheading]

theorem Of.significant_opening : (significant p.opening).map lexeme = returnLexemes := by
  have hopening : Lexeme.significant beforeAlpha.toList = returnLexemes := by decide
  rw [significant_of_lexemes h.opening, hopening]

theorem Of.significant_closing : (significant p.closing).map lexeme = closingLexemes := by
  have hclosing : Lexeme.significant afterAlpha.toList = closingLexemes := by decide
  rw [significant_of_lexemes h.closing, hclosing]

theorem Of.significant_entry : ∃ inside closing semicolon brace,
    significant p.entry = inside ++ ((significant p.opening ++ [p.alpha, closing, semicolon]) ++ brace :: []) ∧
      inside.map lexeme = Lexeme.significant body ∧ closing.lexeme = mark ')' ∧ semicolon.lexeme = mark ';' ∧
        brace.lexeme = mark '\x7d' := by
  have hclosing := h.significant_closing
  simp only [closingLexemes, List.map_eq_cons_iff, List.map_eq_nil_iff] at hclosing
  obtain ⟨closing, _, hcut, hclosing, semicolon, _, rfl, hsemicolon, brace, _, rfl, hbrace, rfl⟩ := hclosing
  have halpha : isSignificant p.alpha = true := by
    have : Lexeme.isSignificant p.alpha.lexeme = true := by
      rw [h.alpha]
      rfl
    exact this
  refine ⟨significant p.statements, closing, semicolon, brace, ?_, significant_of_lexemes h.statements, hclosing,
    hsemicolon, hbrace⟩
  rw [entry, significant_append, significant_append, significant, significant, significant,
    List.filter_cons_of_pos halpha]
  show _ ++ (_ ++ p.alpha :: significant p.closing) = _
  rw [hcut]
  simp only [List.append_assoc, List.cons_append, List.nil_append]

section Body

variable (hbody : Quiet body)

include hbody

/-- The body of the entry point, and its one return. -/
theorem Of.exists_body : ∃ inside, blockBody 0 (significant p.entry) = some inside ∧
    returns inside = [⟨"half4", [p.alpha]⟩] ∧ through 1 ((significant p.entry).map lexeme) = some 0 := by
  obtain ⟨inside, closing, semicolon, brace, hcut, hinside, hclosing, hsemicolon, hbrace⟩ := h.significant_entry
  have hend : ∀ x ∈ returnLexemes ++ [alphaLexeme, mark ')', mark ';'], isFlat x = true := by decide
  have hflat : ∀ x ∈ (inside ++ (significant p.opening ++ [p.alpha, closing, semicolon])).map lexeme,
      isFlat x = true := by
    rw [List.map_append, hinside, List.map_append, h.significant_opening]
    simp only [List.map_cons, List.map_nil, h.alpha, hclosing, hsemicolon]
    exact List.forall_mem_append.mpr ⟨flat_body hbody, hend⟩
  have hreturn : ∀ t ∈ inside, t.text ≠ "return" := by
    intro t ht htext
    have hmem : t.lexeme ∈ Lexeme.significant body := hinside ▸ List.mem_map_of_mem ht
    have hquiet := hbody.words _ hmem
    have hchars : t.lexeme.2 = ['r', 'e', 't', 'u', 'r', 'n'] := by rw [Token.lexeme, htext, String.toList_ofList]
    simp [isQuiet, hchars] at hquiet
  have hcut' : significant p.entry = (inside ++ (significant p.opening ++ [p.alpha, closing, semicolon])) ++ [brace] :=
    hcut.trans (List.append_assoc _ _ _).symm
  refine ⟨inside ++ (significant p.opening ++ [p.alpha, closing, semicolon]), ?_, ?_, ?_⟩
  · rw [hcut']
    exact blockBody_of_through (through_flat hflat 0) (text_of_mark hbrace)
  · rw [returns_append hreturn]
    exact returns_final h.significant_opening h.alpha hclosing hsemicolon
  · rw [hcut', List.map_append, through_append_of (through_flat hflat 1), List.map_singleton, hbrace]
    rfl

end Body

section Before

variable (htag : '\n' ∉ c.effectTag.toList) (hname : '\n' ∉ c.name.text.toList)
variable (hnames : ∀ color ∈ c.palette.colors, Shape.Identifier color.1)

theorem Of.significant_middle (hnames : ∀ color ∈ c.palette.colors, Shape.Identifier color.1) :
    (significant p.middle).map lexeme = middleLexemes c effect noise := by
  rw [significant_of_lexemes h.middle, Program.significant_middle hnames]
  rfl

include htag hname

theorem Of.significant_top :
    (significant p.top).map lexeme = (declared c.useUniformColors.isTrue).flatMap uniformItem := by
  rw [significant_of_lexemes h.top, Program.significant_top htag hname]

include hnames

theorem Of.significant_before : (significant (p.top ++ p.middle)).map lexeme = beforeLexemes c effect noise := by
  rw [significant_append, List.map_append, h.significant_top htag hname, h.significant_middle hnames]
  rfl

/-- The heading of the entry point is the first one. -/
theorem Of.exists_heading : ∃ w : Heading, w.name.text = "xy" ∧ w.dialect = .float ∧ significant p.front = w.tokens ∧
    FirstHeading 0 (significant (tokenize source)) (significant (p.top ++ p.middle)) w (significant p.entry) := by
  obtain ⟨w, hw, hvalid, hxy, hdialect⟩ := heading_tokens h.significant_front
  have hbefore := h.significant_before htag hname hnames
  have hcut : significant (tokenize source) = significant (p.top ++ p.middle) ++ (w.tokens ++ significant p.entry) := by
    rw [h.tokens, ← List.append_assoc, significant_append, significant_append p.front, hw]
  refine ⟨w, hxy, hdialect, hw, hcut, hvalid, ?_, fun q r hqr hlen _ => ?_⟩
  · rw [hbefore, beforeLexemes, through_append_of (through_declared _)]
    exact through_middle hnames
  · rw [hcut, List.map_append, List.map_append, hbefore, ← hw, h.significant_front] at hqr
    have hlength : (significant (p.top ++ p.middle)).length = (beforeLexemes c effect noise).length := by
      rw [← hbefore, List.length_map]
    exact not_isHeading_before (guarded_before c effect noise) hqr (hlength ▸ hlen)

variable (hfree : ∀ color ∈ constants c, ∀ word ∈ ["uniform", "u_morphProgress"], identifier color.1 ≠ word.toList)

include hfree

/-- The uniforms are the only declarations, and the last of them ends with the top. -/
theorem Of.exists_last : ∃ last,
    (uniformStatements (placed 0 (significant (p.top ++ p.middle)))).getLast? = some last ∧
      last.semicolon.stop = (topText c).length ∧
        (declaredNames (uniformStatements (placed 0 (significant (p.top ++ p.middle))))).contains "u_resolution" = true := by
  have hplain : ∀ b, ∀ uniform ∈ declared b, Plain uniform := by decide
  have hresolution : ∀ b, ((declared b).flatMap fun uniform => ["uniform", uniform.1, uniform.2]).contains
      "u_resolution" = true := by
    decide
  obtain ⟨statements, hstatements, hdeclared, hlast⟩ :=
    exists_statements (hplain c.useUniformColors.isTrue) (h.significant_top htag hname) (significant p.middle)
  have hmiddle : uniformStatementsFrom none (placed 0 (significant p.middle)) = [] := by
    refine statements_of_none fun t ht htext => ?_
    have hmem : t.1.lexeme ∈ middleLexemes c effect noise := by
      rw [← h.significant_middle hnames]
      refine List.mem_map_of_mem ?_
      rw [← placed_tokens 0 (significant p.middle)]
      exact List.mem_map_of_mem ht
    have hnot : t.1.lexeme.2 ≠ "uniform".toList := not_keyword_middle (by decide)
      (fun color hcolor => hfree color hcolor "uniform" (by simp)) _ hmem
    exact hnot (congrArg String.toList htext)
  rw [hmiddle, List.append_nil] at hstatements
  -- the last token of the top is that semicolon
  obtain ⟨init, semicolon, hinit⟩ : ∃ init semicolon, p.top = init ++ [semicolon] ∧ semicolon.lexeme = mark ';' := by
    have hsemicolon := getLast?_top htag hname
    rw [← h.top, List.getLast?_map, Option.map_eq_some_iff] at hsemicolon
    obtain ⟨semicolon, hsemicolon, htext⟩ := hsemicolon
    obtain ⟨init, hinit⟩ := List.getLast?_eq_some_iff.mp hsemicolon
    exact ⟨init, semicolon, hinit, htext⟩
  obtain ⟨hinit, hmark⟩ := hinit
  have hsignificant : isSignificant semicolon = true := by
    have : Lexeme.isSignificant semicolon.lexeme = true := by
      rw [hmark]
      rfl
    exact this
  have hend : (significant p.top).getLast? = some semicolon := by
    rw [hinit, significant_append, significant, significant, List.filter_cons_of_pos hsignificant, List.filter_nil,
      List.getLast?_concat]
  rw [hend, Option.map_eq_some_iff] at hlast
  obtain ⟨last, hlast, hsemicolon⟩ := hlast
  have hstop : semicolon.stop = (topText c).length := by
    have hlaid := tokenize_laid source
    rw [h.tokens, hinit] at hlaid
    have hend : semicolon.stop = 0 + (textOf []).length + (textOf (init ++ [semicolon])).length := Laid.getLast_stop hlaid
    rwa [← hinit, text_of_lexemes h.top, textOf_nil, List.length_nil, Nat.add_zero, Nat.zero_add] at hend
  refine ⟨last, ?_, by rw [hsemicolon, hstop], ?_⟩
  · rw [significant_append, uniformStatements, hstatements, hlast]
  · rw [significant_append, uniformStatements, hstatements, hdeclared]
    exact hresolution _

omit htag hname hnames hfree in
theorem Of.insertions_eq {w : Heading} {before : List Token} (after : List Token) {last : UniformStatement}
    (hw : significant p.front = w.tokens) (hdialect : w.dialect = .float)
    (hlast : (uniformStatements (placed 0 before)).getLast? = some last) (hstop : last.semicolon.stop = (topText c).length)
    (hdeclared : (declaredNames (uniformStatements (placed 0 before))).contains "u_resolution" = true) :
    insertions source.toList ⟨placed 0 before, w.ret, w.name.text, w.dialect, after⟩ =
      [.insertion (topText c).length morphUniforms.toList,
        .insertion (topText c ++ middleText c effect noise).length (Morph.helpers ++ "\n").toList] := by
  obtain ⟨rest, hmiddle⟩ := exists_middle c effect noise
  have hline : lineEnd source.toList (topText c).length = (topText c).length := by
    rw [h.text, hmiddle, List.cons_append]
    exact lineEnd_here _ _
  have hadded : String.join ((newUniforms (declaredNames (uniformStatements (placed 0 before))) .float).map ("\n" ++ ·)) =
      morphUniforms := by
    rw [newUniforms, hdeclared]
    decide
  have hhelpers : Dialect.helpers .float = Morph.helpers := rfl
  rw [insertions]
  simp only [hlast, hstop, hline, hdialect, hadded, h.start hw, hhelpers]

theorem Of.not_progress (hbody : Quiet body) :
    (significant (tokenize source)).any (·.text == "u_morphProgress") = false := by
  obtain ⟨inside, closing, semicolon, brace, hentry, hinside, hclosing, hsemicolon, hbrace⟩ := h.significant_entry
  let word := ['u', '_', 'm', 'o', 'r', 'p', 'h', 'P', 'r', 'o', 'g', 'r', 'e', 's', 's']
  have hword : "u_morphProgress".toList = word := String.toList_ofList
  have huniforms : ∀ b, ∀ x ∈ (declared b).flatMap uniformItem, x.2 ≠ word := by decide
  have hmiddle : ∀ x ∈ middleLexemes c effect noise, x.2 ≠ word := by
    rw [← hword]
    exact not_keyword_middle (by decide) fun color hcolor => hfree color hcolor "u_morphProgress" (by simp)
  have hheading : ∀ x ∈ headingLexemes, x.2 ≠ word := by decide
  have hstatements : ∀ x ∈ Lexeme.significant body, x.2 ≠ word := by
    intro x hx
    have := hbody.words x hx
    rw [isQuiet, Bool.and_eq_true, bne_iff_ne] at this
    exact this.2
  have hend : ∀ x ∈ returnLexemes ++ [alphaLexeme, mark ')', mark ';', mark '\x7d'], x.2 ≠ word := by decide
  have hall : ∀ x ∈ (significant (tokenize source)).map lexeme, x.2 ≠ word := by
    have hcut : (significant (tokenize source)).map lexeme = beforeLexemes c effect noise ++ (headingLexemes ++
        (Lexeme.significant body ++ (returnLexemes ++ [alphaLexeme, mark ')', mark ';', mark '\x7d']))) := by
      rw [h.tokens, ← List.append_assoc, significant_append, significant_append p.front, hentry, List.map_append,
        h.significant_before htag hname hnames, List.map_append, h.significant_front, List.map_append, hinside]
      simp [h.significant_opening, h.alpha, hclosing, hsemicolon, hbrace]
    rw [hcut, beforeLexemes]
    simp only [List.forall_mem_append] at hend ⊢
    exact ⟨⟨huniforms _, hmiddle⟩, hheading, hstatements, hend⟩
  rw [List.any_eq_false]
  intro t ht htext
  exact hall t.lexeme (List.mem_map_of_mem ht) ((congrArg String.toList (beq_iff_eq.mp htext)).trans hword)

/-- Where a source is changed: its alpha, below its last uniform, and before its entry point. -/
theorem Of.plan (hbody : Quiet body) : planOf source = .ok {
    alphas := Swap.edits (topText c ++ middleText c effect noise).length
      [⟨heading.toList ++ (body ++ beforeAlpha.toList), "1.0".toList, morphAlpha.toList⟩]
    insertions := [.insertion (topText c).length morphUniforms.toList,
      .insertion (topText c ++ middleText c effect noise).length (Morph.helpers ++ "\n").toList] } := by
  obtain ⟨w, hxy, hdialect, hw, hfirst⟩ := h.exists_heading htag hname hnames
  obtain ⟨inside, hblock, hreturns, hclosed⟩ := h.exists_body hbody
  obtain ⟨last, hlast, hstop, hdeclared⟩ := h.exists_last htag hname hnames hfree
  have hnot := h.not_progress htag hname hnames hfree hbody
  have hbalanced : through 0 ((significant (tokenize source)).map lexeme) = some 0 := by
    rw [hfirst.cut, List.map_append, through_append_of hfirst.depth, List.map_append, ← hw, h.significant_front]
    exact hclosed
  obtain ⟨depths, hdepths⟩ := exists_depths_iff.mpr hbalanced
  have hentry := (findEntry_eq_some_iff hbalanced).mpr ⟨_, w, _, hfirst, rfl⟩
  have hinsertions := h.insertions_eq (significant p.entry) hw hdialect hlast hstop hdeclared
  have halpha := alphaEdit_one source.toList h.alpha
  rw [hxy] at hinsertions
  rw [h.alpha_place.1, h.alpha_place.2] at halpha
  rw [planOf, Morph.plan, hnot, braceDepths, hdepths]
  simp only [zip_depthsFrom hdepths, hentry, hblock, Option.getD_some, hreturns, hinsertions, hxy, List.map_cons,
    List.map_nil, halpha]
  rfl

end Before

end

theorem exists_parts {c : ShaderConfig} {effect : EffectKind} {noise : NoiseKind} {body : List Char} {source : String}
    (h : lexemes source.toList = lexemes (topText c) ++ (lexemes (middleText c effect noise) ++ (lexemes heading.toList ++
      (lexemes body ++ (lexemes beforeAlpha.toList ++ (alphaLexeme :: lexemes afterAlpha.toList)))))) :
    ∃ p : Parts, p.Of c effect noise body source := by
  have hlexemes : (tokenize source).map lexeme = _ := h
  obtain ⟨top, _, htokens, htop, hlexemes⟩ := List.map_eq_append_iff.mp hlexemes
  obtain ⟨middle, _, rfl, hmiddle, hlexemes⟩ := List.map_eq_append_iff.mp hlexemes
  obtain ⟨front, _, rfl, hfront, hlexemes⟩ := List.map_eq_append_iff.mp hlexemes
  obtain ⟨statements, _, rfl, hstatements, hlexemes⟩ := List.map_eq_append_iff.mp hlexemes
  obtain ⟨opening, _, rfl, hopening, hlexemes⟩ := List.map_eq_append_iff.mp hlexemes
  obtain ⟨alpha, closing, rfl, halpha, hclosing⟩ := List.map_eq_cons_iff.mp hlexemes
  exact ⟨⟨top, middle, front, statements, opening, alpha, closing⟩,
    ⟨htokens, htop, hmiddle, hfront, hstatements, hopening, halpha, hclosing⟩⟩

end Parts

/-! ## The pass -/

/-- A source, part by part, and what the pass makes of it. -/
structure Morphed (c : ShaderConfig) (effect : EffectKind) (noise : NoiseKind) (body : List Char) (source : String)
    (made : Wrapped) : Prop where
  effect_eq : c.effect = .str effect.tag
  noise_eq : c.noise = .str noise.tag
  /-- Whole statements, none of which is a block or returns. -/
  statements : Quiet body
  /-- The source up to its last uniform, its constants and functions, and its entry point. -/
  source_eq : source.toList = topText c ++ (middleText c effect noise ++ (heading.toList ++ (body ++
    (beforeAlpha.toList ++ ("1.0".toList ++ afterAlpha.toList)))))
  /-- The same with the declarations and the helpers put in and the alpha replaced. -/
  made_eq : made.source.toList = topText c ++ (morphUniforms.toList ++ (middleText c effect noise ++
    ((Morph.helpers ++ "\n").toList ++ (heading.toList ++ (body ++ (beforeAlpha.toList ++ (morphAlpha.toList ++
      afterAlpha.toList)))))))
  note : made.note = .applied 1

theorem wrap_of_planOf {source : String} {plan : Plan} (h : planOf source = .ok plan) :
    wrap source = ⟨String.ofList (Edit.apply source.toList (plan.alphas ++ plan.insertions)),
      .applied plan.alphas.length⟩ := by
  rw [planOf] at h
  rw [wrap, h]

/-- The source of an accepted configuration whose name stays on its line is changed in three places, unless a constant
is named like a word of the pass. -/
theorem wrap_compose {c : ShaderConfig} {source : String} (hv : c.verdict = .passed) (hname : '\n' ∉ c.name.text.toList)
    (hfree : ∀ color ∈ constants c, ∀ word ∈ ["uniform", "u_morphProgress"], identifier color.1 ≠ word.toList)
    (hs : compose c = .ok source) : ∃ effect noise body, Morphed c effect noise body source (wrap source) := by
  obtain ⟨entries, hentries, hc⟩ := Shape.judge_eq_passed_iff.mp hv
  cases hentries
  have htag := tag_of_config hc
  have hnames := identifier_of_config hc
  obtain ⟨effect, noise, body, heffect, hnoise, hbody, htext⟩ := exists_layout hs
  obtain ⟨p, hp⟩ := Parts.exists_parts ((congrArg lexemes htext).trans (lexemes_layout htag hname hnames hbody))
  obtain ⟨rest, hmiddle⟩ := exists_middle c effect noise
  have hwrap := wrap_of_planOf (hp.plan htag hname hnames hfree hbody)
  have hcut : source.toList = (topText c ++ middleText c effect noise) ++
      (Swap.before [⟨heading.toList ++ (body ++ beforeAlpha.toList), "1.0".toList, morphAlpha.toList⟩] ++
        afterAlpha.toList) := by
    rw [htext]
    simp only [Swap.before_cons, Swap.before_nil, List.append_assoc, List.append_nil]
  have hmade := @Edit.apply_edits (topText c ++ middleText c effect noise)
    [⟨heading.toList ++ (body ++ beforeAlpha.toList), "1.0".toList, morphAlpha.toList⟩] _
    (by simp) (Edit.descends_two_insertions (topText c) (middleText c effect noise) morphUniforms.toList
      (Morph.helpers ++ "\n").toList) afterAlpha.toList
  rw [Edit.apply_two_insertions, if_neg (by simp [hmiddle]), ← hcut] at hmade
  refine ⟨effect, noise, body, heffect, hnoise, hbody, htext, ?_, ?_⟩
  · rw [hwrap, String.toList_ofList, hmade]
    simp only [Swap.after_cons, Swap.after_nil, List.append_assoc, List.append_nil]
  · rw [hwrap]
    rfl

theorem wholeNumbers_morphed :
    wholeNumbers.verdict = .passed ∧ '\n' ∉ wholeNumbers.name.text.toList ∧
      (∀ color ∈ constants wholeNumbers, ∀ word ∈ ["uniform", "u_morphProgress"], identifier color.1 ≠ word.toList) ∧
        ∃ source, compose wholeNumbers = .ok source ∧
          ∃ effect noise body, Morphed wholeNumbers effect noise body source (wrap source) := by
  have hv : wholeNumbers.verdict = .passed := by decide +kernel
  have hname : '\n' ∉ wholeNumbers.name.text.toList := by decide
  have hfree : ∀ color ∈ constants wholeNumbers, ∀ word ∈ ["uniform", "u_morphProgress"],
      identifier color.1 ≠ word.toList := by
    decide
  obtain ⟨source, hs⟩ := Outcome.exists_ok (x := compose wholeNumbers) (by decide +kernel)
  exact ⟨hv, hname, hfree, source, hs, wrap_compose hv hname hfree hs⟩

end ShaderLoom.Program
