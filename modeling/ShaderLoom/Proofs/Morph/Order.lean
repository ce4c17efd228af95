/-
  ShaderLoom.Proofs.Morph.Order — the new declarations above the helpers.

  The declarations are put in below the last uniform declaration and the helpers right before the
  entry point, by two insertions with offsets of their own. In order (`Entry.InOrder`) the new
  declarations stand behind all that the source declares at file scope, with no text but the source's
  before them, and the helpers behind them. Two things break it, and nothing else (`wrap_in_order`):

  - The entry point stands right behind the semicolon (`Entry.Glued`). Both insertions have one
    offset, and the one that is given second ends up in front.
  - The semicolon where the scan ends the last declaration is inside a block, and the declaration
    ends behind it (`Entry.Severed`).
-/

import ShaderLoom.Proofs.Morph.Dialects
import ShaderLoom.Proofs.Morph.Statements

namespace ShaderLoom.Morph

open ShaderLoom.Token
open ShaderLoom.Lexeme hiding significant isSignificant

namespace Entry

/-- The token is the semicolon of a uniform declaration at file scope before the entry point. -/
def Declares (e : Entry) (t : Token) : Prop :=
  ∃ pre keyword inside post, e.before = pre ++ (keyword, 0) :: (inside ++ (t, 0) :: post) ∧
    keyword.text = "uniform" ∧ t.text = ";" ∧ ∀ p ∈ inside, p.2 = 0 → p.1.text ≠ ";"

def Glued (e : Entry) : Prop :=
  ∃ s, e.statements.getLast? = some s ∧ s.semicolon.stop = e.returnType.start

/-- The scan ends the last declaration inside a block that the declaration goes on behind. -/
def Severed (e : Entry) : Prop := e.depth ≠ 0 ∧ ∃ p ∈ e.behind, p.2 = 0 ∧ p.1.text = ";"

/-- The text of the new declarations below the last one. -/
def lower (e : Entry) : List Char := (String.join (e.added.map ("\n" ++ ·))).toList

def helpers (e : Entry) : List Char := (e.dialect.helpers ++ "\n").toList

/-- First the declarations of the source, then the new ones, then the helpers. -/
structure InOrder (e : Entry) (source made : String) : Prop where
  declared : ∀ t, e.Declares t → t.stop ≤ e.offset source
  text : ∃ rest, made.toList = source.toList.take (e.offset source) ++
    (e.lower ++ ((source.toList.take e.returnType.start).drop (e.offset source) ++ (e.helpers ++ rest)))

end Entry

/-! ## Declarations of the source -/

section Closing

variable {ps pre inside post : List Placed} {s : UniformStatement} {keyword : Token} {d : Nat}

/-- A declaration that the scan severs ends behind the semicolon. -/
theorem Closing.exists_declares {e : Entry} (h : Closing e.before s pre keyword inside d post) (hd : d ≠ 0)
    {p : Placed} (hp : p ∈ post) (hdepth : p.2 = 0) (htext : p.1.text = ";") :
    ∃ t ∈ post.map (·.1), e.Declares t := by
  obtain ⟨q, hq⟩ := Option.isSome_iff_exists.mp
    (List.find?_isSome.mpr ⟨p, hp, by simp [hdepth, htext]⟩ :
      (post.find? fun p => p.2 == 0 && p.1.text == ";").isSome)
  obtain ⟨hends, between, more, hcut, hbetween⟩ := List.find?_eq_some_iff_append.mp hq
  obtain ⟨t, depth⟩ := q
  obtain ⟨rfl, hsemi⟩ : depth = 0 ∧ t.text = ";" := by simpa using hends
  refine ⟨t, by simp [hcut], pre, keyword, inside ++ (s.semicolon, d) :: between, more, ?_, h.keyword, hsemi, ?_⟩
  · rw [h.cut, hcut]
    simp
  · intro q hq hq0 hqtext
    rcases List.mem_append.mp hq with hq | hq
    · exact h.inside q hq hqtext
    · rcases List.mem_cons.mp hq with rfl | hq
      · exact hd hq0
      · have := hbetween q hq
        simp [hq0, hqtext] at this

/-- No declaration that has not the semicolon within ends behind it: the scan would find it there. -/
theorem Closing.not_behind (h : Closing ps s pre keyword inside d post) (hnodup : ps.Nodup)
    {pre' inside' post' : List Placed} {keyword' t : Token} {k : Nat}
    (hcut : ps = pre' ++ (keyword', 0) :: (inside' ++ (t, k) :: post')) (hkeyword : keyword'.text = "uniform")
    (hsemi : t.text = ";") (hinside : (s.semicolon, d) ∉ inside') : (t, k) ∉ post := by
  intro ht
  obtain ⟨between, more, rfl⟩ := List.append_of_mem ht
  have hahead := (cut_unique hnodup
    (show ps = (pre ++ (keyword, 0) :: (inside ++ (s.semicolon, d) :: between)) ++ (t, k) :: more by
      rw [h.cut]; simp)
    (show ps = (pre' ++ (keyword', 0) :: inside') ++ (t, k) :: post' by rw [hcut]; simp)).1
  have hmem : (s.semicolon, d) ∈ pre' ++ (keyword', 0) :: inside' := by
    rw [← hahead]
    simp
  -- a `uniform` behind the semicolon would start one more that the scan finds
  rcases List.mem_append.mp hmem with hmem | hmem
  · obtain ⟨x, y, rfl⟩ := List.append_of_mem hmem
    have hpost := (cut_unique hnodup
      (show ps = (pre ++ (keyword, 0) :: inside) ++ (s.semicolon, d) :: (between ++ (t, k) :: more) by
        rw [h.cut]; simp)
      (show ps = x ++ (s.semicolon, d) :: (y ++ (keyword', 0) :: (inside' ++ (t, k) :: post')) by
        rw [hcut]; simp)).2
    have hlast := h.last
    rw [hpost] at hlast
    exact scan_ne_nil hkeyword ⟨(t, k), by simp, hsemi⟩ hlast
  · rcases List.mem_cons.mp hmem with heq | hmem
    · have : s.semicolon = keyword' := congrArg Prod.fst heq
      rw [← this, h.semicolon] at hkeyword
      exact absurd hkeyword (by decide)
    · exact hinside hmem

/-- No declaration ends behind a semicolon at file scope where the scan ends the last one. -/
theorem Closing.not_declares {e : Entry} (h : Closing e.before s pre keyword inside 0 post)
    (hnodup : e.before.Nodup) {t : Token} (ht : (t, 0) ∈ post) : ¬e.Declares t := by
  intro hdeclares
  obtain ⟨pre', keyword', inside', post', hcut, hkeyword, hsemi, hinside⟩ := hdeclares
  exact h.not_behind hnodup hcut hkeyword hsemi (fun hmem => hinside _ hmem rfl h.semicolon) ht

end Closing

theorem Entry.Declares.statements_ne_nil {e : Entry} {t : Token} (h : e.Declares t) : e.statements ≠ [] := by
  obtain ⟨pre, keyword, inside, post, hcut, hkeyword, hsemi, -⟩ := h
  rw [Entry.statements, uniformStatements, hcut]
  exact scan_ne_nil hkeyword ⟨(t, 0), by simp, hsemi⟩

namespace Anchor

variable {a : Anchor} {f : Found} {source : String}

/-- Every declaration of the source ends above the anchor unless the scan severs the last one. -/
theorem Of.declares_iff (ha : a.Of f) (hf : f.Of source) :
    (∀ t, f.entry.Declares t → t.stop ≤ a.above.length) ↔ ¬f.entry.Severed := by
  obtain ⟨s, pre, keyword, inside, d, post, heq, hclosing, hbehind, hbetween, hhead⟩ := ha.exists_closing hf
  have hdepth : f.entry.depth = d := by rw [Entry.depth, hbehind]; rfl
  constructor
  · intro h hsevered
    obtain ⟨hne, p, hp, hp0, hptext⟩ := hsevered
    rw [hdepth] at hne
    rw [hbehind] at hp
    rcases List.mem_cons.mp hp with rfl | hp
    · exact hne hp0
    · obtain ⟨t, ht, hdeclares⟩ := hclosing.exists_declares hne hp hp0 hptext
      rw [hbetween] at ht
      have hstart := ha.le_start hf t ht
      have hstop := h t hdeclares
      have hmem : t ∈ significant (tokenize source) := by
        rw [hf.entry.cut, ha.before_eq]
        simp [ht]
      have hpos := (ordered_significant source).nonempty t hmem
      omega
  · intro h t hdeclares
    obtain ⟨pre', keyword', inside', post', hcut', -, hsemi, -⟩ := id hdeclares
    have hmem : (t, 0) ∈ f.entry.before := by rw [hcut']; simp
    have hcut : f.entry.before = (pre ++ (keyword, 0) :: (inside ++ [(a.semicolon, d)])) ++ post := by
      rw [hclosing.cut, heq]
      simp
    rw [hcut] at hmem
    have hsplit : t ∈ a.head ∨ (t, 0) ∈ post :=
      (List.mem_append.mp hmem).imp_left fun h => hhead ▸ List.mem_map_of_mem (f := (·.1)) h
    rcases hsplit with ht | ht
    · exact ha.stop_le hf t ht
    · exfalso
      by_cases hd : d = 0
      · subst hd
        exact hclosing.not_declares hf.nodup_placed ht hdeclares
      · exact h ⟨by rwa [hdepth], (t, 0), by rw [hbehind]; simp [ht], rfl, hsemi⟩

/-- The source is cut at the offset and at the entry point. -/
theorem Of.source_cut (ha : a.Of f) (hf : f.Of source) (hoffset : f.entry.offset source = a.above.length) :
    source.toList.take (f.entry.offset source) = a.above ∧
      (source.toList.take f.entry.returnType.start).drop (f.entry.offset source) = a.below := by
  have hstart : f.entry.returnType.start = (a.above ++ a.below).length := by
    rw [← ha.front_text]
    exact hf.start_place
  rw [hoffset, hstart, hf.text, ha.front_text, List.take_left, List.drop_left, List.append_assoc, List.take_left]
  exact ⟨rfl, rfl⟩

theorem Of.declarations_eq (ha : a.Of f) : f.declarations = f.entry.lower := if_neg ha.statements_ne_nil

theorem Of.glued_iff (ha : a.Of f) (hf : f.Of source) : f.entry.Glued ↔ a.below = [] := by
  obtain ⟨s, hs, heq⟩ := ha.last
  have hstop : s.semicolon.stop = (textOf (a.upTo ++ [a.semicolon])).length := by
    have hlaid := tokenize_laid source
    rw [ha.tokens hf, List.append_assoc] at hlaid
    rw [heq, hlaid.place.2]
    simp
  have hstart : f.entry.returnType.start = s.semicolon.stop + a.gap.length + a.below.length := by
    have : f.entry.returnType.start = (textOf f.front).length := hf.start_place
    rw [this, ha.front_text, above, hstop, List.length_append, List.length_append]
  constructor
  · intro h
    obtain ⟨s', hs', hglued⟩ := h
    rw [ha.semicolon_eq hs', ← heq] at hglued
    exact List.length_eq_zero_iff.mp (by omega)
  · intro hbelow
    exact ⟨s, hs, by rw [hstart, hbelow, ha.gap_of_below_nil hbelow]; rfl⟩

end Anchor

/-! ## The order -/

theorem Entry.lower_start (e : Entry) : ∃ cs, e.lower = '\n' :: cs :=
  List.head?_eq_some_iff.mp (head?_declarations (declaredNames e.statements) e.dialect).2

theorem Entry.helpers_start (e : Entry) : ∃ cs, e.helpers = '/' :: cs := by
  obtain ⟨t, ht, -⟩ := exists_slashes e.dialect
  exact ⟨_, by rw [Entry.helpers, String.toList_append, ht]; rfl⟩

/-- Where the entry point stands right behind the semicolon the helpers come first. -/
theorem helpers_first {source : String} (h : (wrap source).source ≠ source) {e : Entry}
    (he : entryOf source = some e) (hglued : e.Glued) :
    ∃ rest, (wrap source).source.toList =
      source.toList.take (e.offset source) ++ (e.helpers ++ (e.lower ++ rest)) := by
  obtain ⟨f, hf, hmade⟩ := exists_madeAt h
  obtain rfl : f.entry = e := Option.some.inj (hf.entryOf_eq.symm.trans he)
  generalize (wrap source).source.toList = made at hmade
  cases hmade with
  | above hs =>
    obtain ⟨s, hs', -⟩ := hglued
    have : f.statements.getLast? = some s := hs'
    rw [hs] at this
    cases this
  | apart ha hoffset hbelow => exact absurd ((ha.glued_iff hf).mp hglued) hbelow
  | glued ha hoffset hbelow =>
    refine ⟨f.swapped, ?_⟩
    rw [(ha.source_cut hf hoffset).1, ha.declarations_eq]
    rfl

theorem not_inOrder_of_glued {source : String} (h : (wrap source).source ≠ source) {e : Entry}
    (he : entryOf source = some e) (hglued : e.Glued) : ¬e.InOrder source (wrap source).source := by
  intro horder
  obtain ⟨rest, hmade⟩ := helpers_first h he hglued
  obtain ⟨rest', hmade'⟩ := horder.text
  obtain ⟨cs, hlower⟩ := e.lower_start
  obtain ⟨cs', hhelpers⟩ := e.helpers_start
  have := List.append_cancel_left (hmade.symm.trans hmade')
  rw [hlower, hhelpers] at this
  exact absurd (List.cons.inj this).1 (by decide)

/-- With a uniform declaration before the entry point the new ones come right below the last and
above the helpers, unless the entry point is glued to it or the scan severs it. -/
theorem wrap_in_order {source : String} (h : (wrap source).source ≠ source) :
    ∃ e, entryOf source = some e ∧
      ((∃ t, e.Declares t) → (e.InOrder source (wrap source).source ↔ ¬e.Glued ∧ ¬e.Severed)) := by
  obtain ⟨f, hf, hmade⟩ := exists_madeAt h
  refine ⟨f.entry, hf.entryOf_eq, fun hdeclares => ?_⟩
  by_cases hglued : f.entry.Glued
  · have hnot := not_inOrder_of_glued h hf.entryOf_eq hglued
    exact ⟨fun horder => absurd horder hnot, fun hboth => absurd hglued hboth.1⟩
  generalize hnew : (wrap source).source.toList = made at hmade
  cases hmade with
  | above hs =>
    obtain ⟨t, ht⟩ := hdeclares
    exact absurd hs ht.statements_ne_nil
  | glued ha hoffset hbelow => exact absurd ((ha.glued_iff hf).mpr hbelow) hglued
  | @apart a ha hoffset hbelow =>
    have hiff := ha.declares_iff hf
    rw [← hoffset] at hiff
    obtain ⟨habove, hbetween⟩ := ha.source_cut hf hoffset
    constructor
    · exact fun horder => ⟨hglued, hiff.mp horder.declared⟩
    · intro hboth
      refine ⟨hiff.mpr hboth.2, f.swapped, ?_⟩
      rw [hnew, habove, hbetween, ha.declarations_eq]
      rfl

/-- The texts of one declaration before an entry point, and their depths. -/
def loneUniform : List (String × Nat) := [("uniform", 0), ("float2", 0), ("u_resolution", 0), (";", 0)]

theorem Entry.declares_of_lone {e : Entry} (h : e.before.map (fun p => (p.1.text, p.2)) = loneUniform) :
    ∃ t, e.Declares t := by
  simp only [loneUniform, List.map_eq_cons_iff, List.map_eq_nil_iff, Prod.mk.injEq] at h
  obtain ⟨⟨u, _⟩, _, hcut, ⟨hu, rfl⟩, t, _, rfl, ⟨ht, ht0⟩, n, _, rfl, ⟨hn, hn0⟩, ⟨s, _⟩, _, rfl, ⟨hs, rfl⟩, rfl⟩ := h
  exact ⟨s, [], u, [t, n], [], hcut, hu, hs, by simp [ht, hn]⟩

theorem smallShader_entry : ∃ e, entryOf smallShader = some e ∧
    e.before.map (fun p => (p.1.text, p.2)) = loneUniform ∧ ¬e.Glued ∧ e.depth = 0 ∧
      "u_resolution" ∈ declaredNames e.statements ∧ (smallShader.toList.take e.returnType.start).getLast? = some '\n' := by
  have h : (entryOf smallShader).any (fun e => e.before.map (fun p => (p.1.text, p.2)) == loneUniform &&
      e.statements.getLast?.all (fun s => s.semicolon.stop != e.returnType.start) && e.depth == 0 &&
        (declaredNames e.statements).contains "u_resolution" &&
          (smallShader.toList.take e.returnType.start).getLast? == some '\n') = true := by decide +kernel
  obtain ⟨e, he, h⟩ := (Option.any_eq_true _ _).mp h
  simp only [Bool.and_eq_true, beq_iff_eq, List.contains_iff_mem] at h
  obtain ⟨⟨⟨⟨hbefore, hapart⟩, hdepth⟩, hnames⟩, hlast⟩ := h
  refine ⟨e, he, hbefore, ?_, hdepth, hnames, hlast⟩
  rintro ⟨s, hs, hstop⟩
  have hne := (Option.all_eq_true _ _).mp hapart s hs
  rw [hstop, bne_self_eq_false] at hne
  cases hne

theorem smallShader_in_order :
    (wrap smallShader).source ≠ smallShader ∧ ∃ e, entryOf smallShader = some e ∧ (∃ t, e.Declares t) ∧
      ¬e.Glued ∧ ¬e.Severed ∧ e.InOrder smallShader (wrap smallShader).source := by
  obtain ⟨e, he, hiff⟩ := wrap_in_order smallShader_changed
  obtain ⟨e', he', hbefore, hglued, hdepth, -⟩ := smallShader_entry
  obtain rfl : e' = e := Option.some.inj (he'.symm.trans he)
  have hsevered : ¬e'.Severed := fun h => h.1 hdepth
  have hdeclares := Entry.declares_of_lone hbefore
  exact ⟨smallShader_changed, e', he, hdeclares, hglued, hsevered, (hiff hdeclares).mpr ⟨hglued, hsevered⟩⟩

/-- Nothing stands between the semicolon of the declaration and the entry point. -/
def gluedShader : String := "uniform float2 u_resolution;half4 main(float2 xy) \x7b return half4(c, 1.0); \x7d"

theorem gluedShader_entry : ∃ e, entryOf gluedShader = some e ∧
    e.before.map (fun p => (p.1.text, p.2)) = loneUniform ∧
      e.Glued ∧ gluedShader.toList.take (e.offset gluedShader) = "uniform float2 u_resolution;".toList := by
  have h : (entryOf gluedShader).any (fun e =>
      e.before.map (fun p => (p.1.text, p.2)) == loneUniform &&
        e.statements.getLast?.any (fun s => s.semicolon.stop == e.returnType.start) &&
          gluedShader.toList.take (e.offset gluedShader) == "uniform float2 u_resolution;".toList) = true := by
    decide +kernel
  obtain ⟨e, he, h⟩ := (Option.any_eq_true _ _).mp h
  simp only [Bool.and_eq_true, beq_iff_eq] at h
  obtain ⟨⟨hbefore, hglued⟩, habove⟩ := h
  obtain ⟨s, hs, hstop⟩ := (Option.any_eq_true _ _).mp hglued
  exact ⟨e, he, hbefore, ⟨s, hs, by simpa using hstop⟩, habove⟩

/-- The helpers come out between the declaration of the source and the new ones. -/
theorem gluedShader_out_of_order :
    (wrap gluedShader).source ≠ gluedShader ∧ ∃ e, entryOf gluedShader = some e ∧ (∃ t, e.Declares t) ∧
      (∃ rest, (wrap gluedShader).source.toList =
        "uniform float2 u_resolution;".toList ++ (e.helpers ++ (e.lower ++ rest))) ∧
      ¬e.InOrder gluedShader (wrap gluedShader).source := by
  have hchanged : (wrap gluedShader).source ≠ gluedShader := source_ne_of_plan (by decide +kernel)
  obtain ⟨e, he, hbefore, hglued, habove⟩ := gluedShader_entry
  obtain ⟨rest, hmade⟩ := helpers_first hchanged he hglued
  exact ⟨hchanged, e, he, Entry.declares_of_lone hbefore, ⟨rest, habove ▸ hmade⟩,
    not_inOrder_of_glued hchanged he hglued⟩

end ShaderLoom.Morph
