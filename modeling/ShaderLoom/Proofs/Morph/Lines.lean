/-
  ShaderLoom.Proofs.Morph.Lines — the lines of the declarations that a shader has.

  A line with a uniform declaration, and only blanks and comments behind it, stays a line where it
  was (`wrap_declaration_lines`), with one exception (`Entry.Torn`): the declaration is the last one
  and the first comment behind it is a block comment. The end of a line is found past a line comment
  only, so the new declarations come between the semicolon and that comment.
-/

import ShaderLoom.Proofs.Morph.Order

namespace ShaderLoom.Morph

open ShaderLoom.Token ShaderLoom.Text
open ShaderLoom.Lexeme hiding significant isSignificant

/-- A whole line of a text, with what stands above it. -/
structure LineAt (above line text : List Char) : Prop where
  start : above = [] ∨ above.getLast? = some '\n'
  single : '\n' ∉ line
  stop : ∃ below, text = above ++ (line ++ below) ∧ endsLine below

/-- The parts of a line with a uniform declaration. -/
structure DeclarationLine where
  above : List Char
  declaration : List Char
  trail : List Char
  keyword : Token
  type : Token
  name : Token
  semicolon : Token

def DeclarationLine.line (l : DeclarationLine) : List Char := l.declaration ++ l.trail

/-- The line holds a declaration at file scope before the entry point, and behind it no other tokens. -/
structure DeclarationLine.Of (l : DeclarationLine) (e : Entry) (source : String) : Prop where
  whole : LineAt l.above l.line source.toList
  cut : ∃ pre post, e.before = pre ++ (l.keyword, 0) :: (l.type, 0) :: (l.name, 0) :: (l.semicolon, 0) :: post
  keyword : l.keyword.text = "uniform"
  type : l.type.kind = .name
  name : l.name.kind = .name
  semicolon : l.semicolon.text = ";"
  within : l.above.length ≤ l.keyword.start ∧ l.semicolon.stop = (l.above ++ l.declaration).length
  trail : IsGap l.trail

/-- The declaration is the last one, and the first thing behind it is a block comment. -/
def Entry.Torn (e : Entry) (l : DeclarationLine) : Prop :=
  (∃ s, e.statements.getLast? = some s ∧ s.semicolon = l.semicolon) ∧ ['/', '*'] <+: l.trail.dropWhile isBlank

/-! ## The end of the line -/

theorem trimEnd_cons {p : Char → Bool} {c : Char} (hc : p c = false) (cs : List Char) :
    trimEnd p (c :: cs) = c :: trimEnd p cs := by
  rw [trimEnd, List.reverse_cons, List.dropWhile_append]
  split
  · rename_i hnil
    simp [trimEnd, List.isEmpty_iff.mp hnil, hc]
  · simp [trimEnd]

/-- Of the gaps only those that start with a block comment are not passed over. -/
theorem lineEnd_of_gap (pre : List Char) {gap below : List Char} (hgap : IsGap gap) (hline : '\n' ∉ gap) (hbelow : endsLine below) :
    lineEnd (pre ++ (gap ++ below)) pre.length =
      if ['/', '*'] <+: gap.dropWhile isBlank then pre.length else pre.length + gap.length := by
  have htail : (gap ++ below).takeWhile (· != '\n') = gap :=
    takeWhile_append_eq_left.mpr ⟨fun c hc => by simpa using ne_of_mem_of_not_mem hc hline, hbelow⟩
  have hmark : isBlank '/' = false ∧ isBlank '*' = false := by decide
  unfold lineEnd
  simp only [List.drop_left, htail, trim, trimStart]
  rcases hgap.blank_or_comment with hnil | ⟨r, hcomment | hcomment⟩
  · simp [hnil, trimEnd]
  · simp [hcomment, trimEnd_cons hmark.1]
  · simp [hcomment, trimEnd_cons hmark.1, trimEnd_cons hmark.2]

/-! ## Declarations in the row of tokens -/

namespace DeclarationLine

variable {l : DeclarationLine} {f : Found} {source : String}

theorem Of.semicolon_mem (hl : l.Of f.entry source) : (l.semicolon, 0) ∈ f.entry.before := by
  obtain ⟨pre, post, hcut⟩ := hl.cut
  rw [hcut]
  simp

/-- The type and the name are no semicolons. -/
theorem Of.words (hl : l.Of f.entry source) (hf : f.Of source) :
    ∀ p ∈ [(l.type, 0), (l.name, 0)], p.1.text ≠ ";" := by
  obtain ⟨pre, post, hcut⟩ := hl.cut
  have hword : ∀ t : Token, (t, 0) ∈ f.entry.before → t.kind = .name → t.text ≠ ";" := by
    intro t ht hkind htext
    have hmem : t ∈ significant (tokenize source) := by
      have : t ∈ (placed 0 f.before).map (·.1) := List.mem_map_of_mem (f := (·.1)) ht
      rw [placed_tokens] at this
      rw [hf.entry.cut]
      simp [this]
    have hname := isName_of_mem (List.mem_filter.mp hmem).1 hkind
    rw [htext] at hname
    exact absurd hname (by decide)
  intro p hp
  simp only [List.mem_cons, List.not_mem_nil, or_false] at hp
  rcases hp with rfl | rfl
  · exact hword _ (by rw [hcut]; simp) hl.type
  · exact hword _ (by rw [hcut]; simp) hl.name

theorem Of.declares (hl : l.Of f.entry source) (hf : f.Of source) : f.entry.Declares l.semicolon := by
  obtain ⟨pre, post, hcut⟩ := hl.cut
  exact ⟨pre, l.keyword, [(l.type, 0), (l.name, 0)], post, hcut, hl.keyword, hl.semicolon,
    fun p hp _ => hl.words hf p hp⟩

/-- The declaration ends no further down than the last one that the scan finds. -/
theorem Of.mem_head (hl : l.Of f.entry source) (hf : f.Of source) {a : Anchor} (ha : a.Of f) :
    l.semicolon ∈ a.head := by
  obtain ⟨pre', post', hcut'⟩ := hl.cut
  obtain ⟨s, pre, keyword, inside, d, post, heq, hclosing, -, -, hhead⟩ := ha.exists_closing hf
  have hcut : f.entry.before = (pre ++ (keyword, 0) :: (inside ++ [(a.semicolon, d)])) ++ post := by
    rw [hclosing.cut, heq]
    simp
  have hmem := hl.semicolon_mem
  rw [hcut] at hmem
  refine hhead ▸ List.mem_map_of_mem (f := (·.1)) ((List.mem_append.mp hmem).resolve_right ?_)
  refine hclosing.not_behind hf.nodup_placed
    (show _ = pre' ++ (l.keyword, 0) :: ([(l.type, 0), (l.name, 0)] ++ (l.semicolon, 0) :: post') from hcut')
    hl.keyword hl.semicolon ?_
  exact fun hmem => hl.words hf _ hmem hclosing.semicolon

/-- The tokens behind the declaration, with the rest of its line. -/
theorem Of.exists_rest (hl : l.Of f.entry source) {pre post : List Token}
    (hcut : significant (tokenize source) = pre ++ l.semicolon :: post) :
    ∃ ts us below, tokenize source = ts ++ us ∧ significant us = post ∧ textOf ts = l.above ++ l.declaration ∧
      textOf us = l.trail ++ below ∧ endsLine below := by
  obtain ⟨ts, us', htokens, -, hus'⟩ := significant_eq_append hcut
  obtain ⟨gap, us, rfl, -, rfl⟩ := significant_eq_cons hus'
  rw [← List.append_assoc] at htokens
  have hlength : (textOf (ts ++ gap ++ [l.semicolon])).length = (l.above ++ l.declaration).length := by
    have hlaid := tokenize_laid source
    rw [htokens] at hlaid
    rw [← hl.within.2, hlaid.place.2, textOf_append, List.length_append]
    simp
  obtain ⟨below, htext, hbelow⟩ := hl.whole.stop
  have hsplit : textOf (ts ++ gap ++ [l.semicolon]) ++ textOf us = (l.above ++ l.declaration) ++ (l.trail ++ below) := by
    rw [← textOf_append, List.append_assoc, List.singleton_append, ← htokens, textOf_tokenize, htext, line]
    simp
  obtain ⟨hts, hus⟩ := List.append_inj hsplit hlength
  exact ⟨_, us, below, by rw [htokens]; simp, rfl, hts, hus, hbelow⟩

/-- They start below that line. -/
theorem Of.lt_start (hl : l.Of f.entry source) {pre post : List Token} {t : Token}
    (hcut : significant (tokenize source) = pre ++ l.semicolon :: post) (ht : t ∈ post) :
    (l.above ++ l.line).length < t.start := by
  obtain ⟨ts, us, below, htokens, rfl, hts, hus, hbelow⟩ := hl.exists_rest hcut
  have hlexed : Lexed (ts ++ us) := htokens ▸ lexed_tokenize source
  cases below with
  | nil =>
    have hlex : lexemes (textOf us) = us.map lexeme := hlexed.append_right
    rw [hus, List.append_nil] at hlex
    obtain ⟨hmem, hsig⟩ := List.mem_filter.mp ht
    have hgap : isSignificant t = false := hl.trail t.lexeme (hlex ▸ List.mem_map_of_mem hmem)
    rw [hsig] at hgap
    cases hgap
  | cons c below =>
    obtain rfl : c = '\n' := by simpa [endsLine] using hbelow
    have := lt_start_of_gap htokens hus hl.trail t ht
    rwa [hts, ← List.length_append, List.append_assoc] at this

end DeclarationLine

/-! ## The line in the text that is made -/

namespace DeclarationLine

variable {l : DeclarationLine} {f : Found} {a : Anchor} {source : String}

/-- The line of another declaration ends above the new ones. -/
theorem Of.above_of_ne (hl : l.Of f.entry source) (hf : f.Of source) (ha : a.Of f) (hne : l.semicolon ≠ a.semicolon) :
    ∃ below, a.above = l.above ++ (l.line ++ '\n' :: below) := by
  obtain ⟨x, y, hhead⟩ := List.append_of_mem (hl.mem_head hf ha)
  have hlast := ha.head_getLast?
  rw [hhead, List.getLast?_append, List.getLast?_cons] at hlast
  have hmem : a.semicolon ∈ y := by
    cases hy : y.getLast? with
    | none => simp [hy, hne] at hlast
    | some t => exact List.mem_of_getLast? (by simpa [hy] using hlast)
  have hcut : significant (tokenize source) =
      x ++ l.semicolon :: (y ++ (a.between ++ (f.heading.tokens ++ f.after))) := by
    rw [hf.entry.cut, ha.before_eq, hhead]
    simp
  have hstart := hl.lt_start hcut (List.mem_append_left _ hmem)
  have hstop := ha.stop_le hf a.semicolon (hhead ▸ by simp [hmem])
  have hnonempty := (ordered_significant source).nonempty a.semicolon (by rw [hcut]; simp [hmem])
  obtain ⟨below, htext, hbelow⟩ := hl.whole.stop
  have hsource : a.above ++ (a.below ++ textOf f.onward) = (l.above ++ l.line) ++ below := by
    rw [← List.append_assoc, ← ha.front_text, List.append_assoc, ← htext, hf.text, Found.onward, textOf_append]
  rcases List.append_eq_append_iff.mp hsource with ⟨m, hm, -⟩ | ⟨m, hm, hrest⟩
  · rw [hm, List.length_append] at hstart
    omega
  · cases m with
    | nil =>
      rw [List.append_nil] at hm
      rw [hm] at hstop
      omega
    | cons c m =>
      rw [hrest] at hbelow
      obtain rfl : c = '\n' := by simpa [endsLine] using hbelow
      exact ⟨m, by rw [hm, List.append_assoc]⟩

/-- Below the last declaration the new ones end its line, or come before the block comment in it. -/
theorem Of.above_of_last (hl : l.Of f.entry source) (hf : f.Of source) (ha : a.Of f)
    (hoffset : f.entry.offset source = a.above.length) (heq : l.semicolon = a.semicolon) :
    a.below ≠ [] ∧ (f.entry.Torn l → a.above = l.above ++ l.declaration) ∧
      (¬f.entry.Torn l → a.above = l.above ++ l.line) := by
  obtain ⟨s, hs, hsemicolon⟩ := ha.last
  have hs' : f.entry.statements.getLast? = some s := hs
  have hsame : s.semicolon = l.semicolon := hsemicolon.trans heq.symm
  obtain ⟨others, hothers⟩ := List.getLast?_eq_some_iff.mp ha.head_getLast?
  have hcut : significant (tokenize source) =
      others ++ l.semicolon :: (a.between ++ (f.heading.tokens ++ f.after)) := by
    rw [hf.entry.cut, ha.before_eq, hothers, heq]
    simp
  have hret : (l.above ++ l.line).length < f.entry.returnType.start :=
    hl.lt_start hcut (by simp [Found.entry, Heading.tokens])
  obtain ⟨below, htext, hbelow⟩ := hl.whole.stop
  have hsource : source.toList = (l.above ++ l.declaration) ++ (l.trail ++ below) := by
    rw [htext, line]
    simp
  have hend : a.above.length = if ['/', '*'] <+: l.trail.dropWhile isBlank then (l.above ++ l.declaration).length
      else (l.above ++ l.declaration).length + l.trail.length := by
    have hsingle : '\n' ∉ l.trail := fun hmem => hl.whole.single (List.mem_append_right _ hmem)
    rw [← lineEnd_of_gap (l.above ++ l.declaration) hl.trail hsingle hbelow, ← hsource, ← hl.within.2, ← hsame,
      ← hoffset]
    simp only [Entry.offset, hs']
  have habove : a.above = source.toList.take a.above.length := by rw [← hoffset, (ha.source_cut hf hoffset).1]
  refine ⟨fun hbelow => ?_, fun htorn => ?_, fun hwhole => ?_⟩
  · obtain ⟨s', hs'', hglued⟩ := (ha.glued_iff hf).mpr hbelow
    rw [← hglued, ha.semicolon_eq hs'', ← heq, hl.within.2, line, ← List.append_assoc, List.length_append] at hret
    omega
  · rw [habove, hend, if_pos htorn.2, hsource, List.take_left]
  · have hnot : ¬['/', '*'] <+: l.trail.dropWhile isBlank := fun hcomment => hwhole ⟨⟨s, hs', hsame⟩, hcomment⟩
    rw [habove, hend, if_neg hnot, hsource, ← List.length_append, ← List.append_assoc, List.take_left, line,
      List.append_assoc]

end DeclarationLine

/-- The line of a declaration stays where it is, unless the new declarations come into it. -/
theorem wrap_declaration_lines {source : String} (h : (wrap source).source ≠ source) :
    ∃ e, entryOf source = some e ∧ ∀ l : DeclarationLine, l.Of e source →
      (LineAt l.above l.line (wrap source).source.toList ↔ ¬e.Torn l) := by
  obtain ⟨f, hf, hmade⟩ := exists_madeAt h
  refine ⟨f.entry, hf.entryOf_eq, fun l hl => ?_⟩
  generalize (wrap source).source.toList = made at hmade
  -- the new text goes on as the line does, or with a line end
  have hkept : ∀ {above rest : List Char}, made = above ++ rest →
      (∃ below, above = l.above ++ (l.line ++ '\n' :: below)) → LineAt l.above l.line made := by
    rintro _ rest rfl ⟨below, rfl⟩
    exact ⟨hl.whole.start, hl.whole.single, '\n' :: (below ++ rest), by simp, rfl⟩
  have hother : ∀ {a : Anchor}, a.Of f → l.semicolon ≠ a.semicolon → ¬f.entry.Torn l := by
    intro a ha hne htorn
    obtain ⟨⟨s, hs, heq⟩, -⟩ := htorn
    exact hne (heq.symm.trans (ha.semicolon_eq hs))
  cases hmade with
  | above hs => exact absurd hs (hl.declares hf).statements_ne_nil
  | @glued a ha hoffset hbelow =>
    have hne : l.semicolon ≠ a.semicolon := fun heq => (hl.above_of_last hf ha hoffset heq).1 hbelow
    exact iff_of_true (hkept rfl (hl.above_of_ne hf ha hne)) (hother ha hne)
  | @apart a ha hoffset hbelow =>
    by_cases heq : l.semicolon = a.semicolon
    · obtain ⟨-, htorn, hwhole⟩ := hl.above_of_last hf ha hoffset heq
      obtain ⟨cs, hlower⟩ := f.entry.lower_start
      rw [ha.declarations_eq, hlower]
      constructor
      · intro hline hcomment
        obtain ⟨below, htext, -⟩ := hline.stop
        rw [htorn hcomment, List.append_assoc, DeclarationLine.line, List.append_assoc] at htext
        have hcut := List.append_cancel_left (List.append_cancel_left htext)
        cases htrail : l.trail with
        | nil => simp [Entry.Torn, htrail] at hcomment
        | cons c trail =>
          rw [htrail] at hcut
          refine hl.whole.single ?_
          rw [DeclarationLine.line, htrail, (List.cons.inj hcut).1]
          simp
      · intro hnot
        refine ⟨hl.whole.start, hl.whole.single, ?_⟩
        rw [hwhole hnot, List.append_assoc]
        exact ⟨_, rfl, rfl⟩
    · exact iff_of_true (hkept rfl (hl.above_of_ne hf ha heq)) (hother ha heq)

/-! ## A line with a comment -/

/-- The first line of a shader that declares its size. -/
def sizeLine (trail : String) : DeclarationLine where
  above := []
  declaration := "uniform float2 u_resolution;".toList
  trail := trail.toList
  keyword := ⟨.name, "uniform", 0, 7⟩
  type := ⟨.name, "float2", 8, 14⟩
  name := ⟨.name, "u_resolution", 15, 27⟩
  semicolon := ⟨.mark, ";", 27, 28⟩

theorem sizeLine_of {source trail : String} {e : Entry}
    (hbefore : e.before = [((sizeLine trail).keyword, 0), ((sizeLine trail).type, 0), ((sizeLine trail).name, 0),
      ((sizeLine trail).semicolon, 0)])
    (htext : (sizeLine trail).line ++ ['\n'] <+: source.toList) (hsingle : '\n' ∉ (sizeLine trail).line)
    (htrail : IsGap trail.toList) : (sizeLine trail).Of e source where
  whole := by
    obtain ⟨below, hbelow⟩ := htext
    exact ⟨Or.inl rfl, hsingle, '\n' :: below, by rw [← hbelow]; simp [sizeLine], rfl⟩
  cut := ⟨[], [], hbefore⟩
  keyword := rfl
  type := rfl
  name := rfl
  semicolon := rfl
  within := ⟨Nat.zero_le _, rfl⟩
  trail := htrail

theorem smallShader_line : ∃ e, entryOf smallShader = some e ∧ (sizeLine " // size").Of e smallShader := by
  have h : (entryOf smallShader).any (fun e => e.before == [((sizeLine " // size").keyword, 0),
      ((sizeLine " // size").type, 0), ((sizeLine " // size").name, 0), ((sizeLine " // size").semicolon, 0)]) = true := by
    decide +kernel
  obtain ⟨e, he, hbefore⟩ := (Option.any_eq_true _ _).mp h
  exact ⟨e, he, sizeLine_of (beq_iff_eq.mp hbefore) (by decide +kernel) (by decide +kernel) (by decide +kernel)⟩

theorem smallShader_declaration_lines :
    (wrap smallShader).source ≠ smallShader ∧ ∃ e, entryOf smallShader = some e ∧
      (sizeLine " // size").Of e smallShader ∧
        (LineAt [] (sizeLine " // size").line (wrap smallShader).source.toList ↔ ¬e.Torn (sizeLine " // size")) := by
  obtain ⟨e, he, hl⟩ := smallShader_line
  obtain ⟨e', he', hlines⟩ := wrap_declaration_lines smallShader_changed
  obtain rfl := Option.some.inj (he.symm.trans he')
  exact ⟨smallShader_changed, e, he, hl, hlines _ hl⟩

/-- The size is explained in a block comment. -/
def sizedShader : String := "uniform float2 u_resolution; /* size */
half4 main(float2 xy) \x7b return half4(c, 1.0); \x7d"

theorem sizedShader_entry : ∃ e, entryOf sizedShader = some e ∧ (sizeLine " /* size */").Of e sizedShader ∧
    sizedShader.toList.take (e.offset sizedShader) = "uniform float2 u_resolution;".toList ∧
    e.lower = "\nuniform float u_morphProgress;\nuniform float u_morphDirection;".toList ∧
    (sizedShader.toList.take e.returnType.start).drop (e.offset sizedShader) = " /* size */\n".toList ∧
    ¬Closes (sizedShader.toList.drop e.returnType.start) := by
  have h : (entryOf sizedShader).any (fun e =>
      e.before == [((sizeLine " /* size */").keyword, 0), ((sizeLine " /* size */").type, 0),
        ((sizeLine " /* size */").name, 0), ((sizeLine " /* size */").semicolon, 0)] &&
      (sizedShader.toList.take (e.offset sizedShader) == "uniform float2 u_resolution;".toList &&
      (e.lower == "\nuniform float u_morphProgress;\nuniform float u_morphDirection;".toList &&
      ((sizedShader.toList.take e.returnType.start).drop (e.offset sizedShader) == " /* size */\n".toList &&
      blockEnd? (sizedShader.toList.drop e.returnType.start) == none)))) = true := by
    decide +kernel
  obtain ⟨e, he, h⟩ := (Option.any_eq_true _ _).mp h
  simp only [Bool.and_eq_true, beq_iff_eq] at h
  obtain ⟨hbefore, habove, hlower, hbetween, hopen⟩ := h
  exact ⟨e, he, sizeLine_of hbefore (by decide +kernel) (by decide +kernel) (by decide +kernel), habove, hlower,
    hbetween, not_closes.mpr hopen⟩

/-- A row of characters without a line end is within a line. -/
theorem infix_of_line {line p q : List Char} (h : line <:+: p ++ q) (hp : p.getLast? = some '\n') (hline : '\n' ∉ line) :
    line <:+: p ∨ line <:+: q := by
  rcases List.infix_append_iff_ne_nil.mp h with h | h | ⟨a, b, hne, -, rfl, ha, -⟩
  · exact Or.inl h
  · exact Or.inr h
  · exfalso
    obtain ⟨s, rfl⟩ := ha
    rw [List.getLast?_append, List.getLast?_eq_some_getLast hne] at hp
    exact hline (List.mem_append_left _ (Option.some.inj hp ▸ List.getLast_mem hne))

/-- The comment comes out behind the new declarations, and the line is nowhere in the new text. -/
theorem sizedShader_line_torn :
    (wrap sizedShader).source ≠ sizedShader ∧ ∃ e, entryOf sizedShader = some e ∧
      (sizeLine " /* size */").Of e sizedShader ∧
        ¬∃ above, LineAt above (sizeLine " /* size */").line (wrap sizedShader).source.toList := by
  have hchanged : (wrap sizedShader).source ≠ sizedShader := source_ne_of_plan (by decide +kernel)
  obtain ⟨e, he, hl, habove, hlower, hbetween, hopen⟩ := sizedShader_entry
  refine ⟨hchanged, e, he, hl, ?_⟩
  rintro ⟨above, hline⟩
  obtain ⟨f, hf, hmade⟩ := exists_madeAt hchanged
  obtain rfl : f.entry = e := Option.some.inj (hf.entryOf_eq.symm.trans he)
  obtain ⟨below, hnew, -⟩ := hline.stop
  rw [hnew] at hmade
  have hin : (sizeLine " /* size */").line <:+: above ++ ((sizeLine " /* size */").line ++ below) :=
    ⟨above, below, List.append_assoc ..⟩
  generalize above ++ ((sizeLine " /* size */").line ++ below) = made at hmade hin
  cases hmade with
  | above hs => exact (hl.declares hf).statements_ne_nil hs
  | glued ha hoffset hbelow =>
    rw [(ha.source_cut hf hoffset).2, hbelow] at hbetween
    exact absurd hbetween (by decide)
  | @apart a ha hoffset hbelow =>
    rw [(ha.source_cut hf hoffset).1] at habove
    rw [(ha.source_cut hf hoffset).2] at hbetween
    have htext : a.above ++ (f.declarations ++ (a.below ++ (f.helpers ++ f.swapped))) =
        "uniform float2 u_resolution;\nuniform float u_morphProgress;\nuniform float u_morphDirection; /* size */\n".toList ++
          (f.helpers ++ f.swapped) := by
      rw [ha.declarations_eq, habove, hlower, hbetween]
      simp
    rw [htext] at hin
    rcases infix_of_line hin (by decide +kernel) hl.whole.single with hin | hin
    · exact absurd hin (by decide +kernel)
    · -- a comment would be closed behind the helpers
      obtain ⟨p, q, hcut⟩ := hin
      have hcomment : blockEnd? (sizeLine " /* size */").line ≠ none := by decide +kernel
      have hcloses : Closes (f.helpers ++ f.swapped) := hcut ▸ (Closes.append_left hcomment p).append_right q
      have honward := hf.closes_helpers hcloses
      have hsource : sizedShader.toList.drop f.entry.returnType.start = textOf f.onward := by
        rw [show f.entry.returnType.start = (textOf f.front).length from hf.start_place, hf.text, List.drop_left,
          Found.onward, textOf_append]
      exact hopen (hsource ▸ honward)

end ShaderLoom.Morph
