/-
  ShaderLoom.Proofs.Morph.Heading — the heading of an entry point.

  A heading is seven tokens `T main(P name) {`. `findEntry` finds the first one at depth zero
  (`findEntry_eq_some_iff`), and none only if there is none (`findEntry_eq_none_iff`). Whether a
  heading starts somewhere depends on the lexemes alone (`isHeading`), so tokens put in before it
  that begin no heading and complete none leave it where it is (`isHeading_of_insertion`).
-/

import ShaderLoom.Proofs.Morph.Braces

namespace ShaderLoom.Morph

open ShaderLoom.Lexeme

/-- `T main(P name) {`. -/
structure Heading where
  ret : Token
  main : Token
  opening : Token
  type : Token
  name : Token
  closing : Token
  brace : Token

namespace Heading

def tokens (w : Heading) : List Token := [w.ret, w.main, w.opening, w.type, w.name, w.closing, w.brace]

def Valid (w : Heading) : Prop :=
  w.ret.text ∈ vectorTypes ∧ w.main.text = "main" ∧ w.opening.text = "(" ∧ w.type.text ∈ pairTypes ∧
    w.name.kind = .name ∧ w.closing.text = ")" ∧ w.brace.text = "\x7b"

def dialect (w : Heading) : Dialect := if w.ret.text = "vec4" ∨ w.type.text = "vec2" then .vec else .float

end Heading

def word (x : Lexeme) : String := String.ofList x.2

@[simp] theorem word_lexeme (t : Token) : word t.lexeme = t.text := String.ofList_toList

/-- Whether lexemes start with a heading. -/
def isHeading : List Lexeme → Bool
  | ret :: main :: opening :: type :: name :: closing :: brace :: _ =>
    vectorTypes.contains (word ret) && word main == "main" && word opening == "(" && pairTypes.contains (word type) &&
      name.1 == .name && word closing == ")" && word brace == "\x7b"
  | _ => false

theorem isHeading_iff_lexemes {xs : List Lexeme} :
    isHeading xs = true ↔ ∃ ret main opening type name closing brace rest,
      xs = ret :: main :: opening :: type :: name :: closing :: brace :: rest ∧ word ret ∈ vectorTypes ∧
        word main = "main" ∧ word opening = "(" ∧ word type ∈ pairTypes ∧ name.1 = .name ∧ word closing = ")" ∧
        word brace = "\x7b" := by
  constructor
  · intro h
    unfold isHeading at h
    split at h
    · refine ⟨_, _, _, _, _, _, _, _, rfl, ?_⟩
      simpa [and_assoc] using h
    · cases h
  · intro h
    obtain ⟨ret, main, opening, type, name, closing, brace, rest, rfl, h⟩ := h
    simpa [isHeading, and_assoc] using h

theorem isHeading_iff {ts : List Token} :
    isHeading (ts.map Token.lexeme) = true ↔ ∃ (w : Heading) (rest : List Token),
      ts = w.tokens ++ rest ∧ w.Valid := by
  rw [isHeading_iff_lexemes]
  constructor
  · intro h
    obtain ⟨a, b, c, d, e, f, g, rest, hcut, h⟩ := h
    simp only [List.map_eq_cons_iff] at hcut
    obtain ⟨a, _, rfl, rfl, b, _, rfl, rfl, c, _, rfl, rfl, d, _, rfl, rfl, e, _, rfl, rfl, f, _, rfl, rfl,
      g, rest, rfl, rfl, rfl⟩ := hcut
    exact ⟨⟨a, b, c, d, e, f, g⟩, rest, rfl, by simpa [Heading.Valid, Token.lexeme, word] using h⟩
  · intro h
    obtain ⟨w, rest, rfl, h⟩ := h
    exact ⟨_, _, _, _, _, _, _, _, rfl, by simpa [Heading.Valid, Token.lexeme, word] using h⟩

theorem entryAt?_eq_some_iff {d : Nat} {ts : List Token} {entry : Entry} :
    entryAt? (placed d ts) = some entry ↔
      d = 0 ∧ ∃ (w : Heading) (rest : List Token), ts = w.tokens ++ rest ∧ w.Valid ∧
        entry = ⟨[], w.ret, w.name.text, w.dialect, rest⟩ := by
  constructor
  · intro h
    rcases ts with _ | ⟨a, _ | ⟨b, _ | ⟨c, _ | ⟨x, _ | ⟨e, _ | ⟨f, _ | ⟨g, rest⟩⟩⟩⟩⟩⟩⟩ <;>
      try (simp [placed, entryAt?] at h; done)
    cases d with
    | succ d => simp [placed, entryAt?] at h
    | zero =>
      simp only [placed, entryAt?, placed_tokens] at h
      split at h
      · rename_i hvalid
        refine ⟨rfl, ⟨a, b, c, x, e, f, g⟩, rest, rfl, ?_, (Option.some.inj h).symm⟩
        simpa [Heading.Valid] using hvalid
      · cases h
  · intro h
    obtain ⟨rfl, w, rest, rfl, hvalid, rfl⟩ := h
    simp only [Heading.Valid] at hvalid
    simp only [placed, Heading.tokens, List.cons_append, List.nil_append, entryAt?, placed_tokens,
      Heading.dialect]
    rw [if_pos (by simpa using hvalid)]

/-! ## The first one -/

/-- The first heading at depth zero in a row of tokens that starts at the depth `d`. -/
structure FirstHeading (d : Nat) (ts before : List Token) (w : Heading) (rest : List Token) : Prop where
  cut : ts = before ++ (w.tokens ++ rest)
  valid : w.Valid
  depth : through d (before.map Token.lexeme) = some 0
  first : ∀ p q, ts.map Token.lexeme = p ++ q → p.length < before.length → through d p = some 0 →
    isHeading q = false

theorem FirstHeading.cons {d d' : Nat} {t : Token} {ts before : List Token} {w : Heading} {rest : List Token}
    (h : FirstHeading d' ts before w rest) (hd : depthBehind d t.lexeme = some d')
    (hnot : d = 0 → isHeading ((t :: ts).map Token.lexeme) = false) :
      FirstHeading d (t :: ts) (t :: before) w rest where
  cut := by rw [h.cut]; rfl
  valid := h.valid
  depth := by
    rw [List.map_cons, through_cons, hd]
    exact h.depth
  first p q hcut hlen hdepth := by
    cases p with
    | nil =>
      obtain rfl : d = 0 := by simpa using hdepth
      rw [← List.nil_append q, ← hcut]
      exact hnot rfl
    | cons x p =>
      rw [List.map_cons, List.cons_append] at hcut
      obtain ⟨rfl, hrest⟩ := List.cons.inj hcut
      rw [through_cons, hd] at hdepth
      exact h.first p q hrest (by simpa using hlen) hdepth

theorem FirstHeading.of_cons {d d' : Nat} {t u : Token} {ts before : List Token} {w : Heading}
    {rest : List Token}
    (h : FirstHeading d (t :: ts) (u :: before) w rest) (hd : depthBehind d t.lexeme = some d') :
    u = t ∧ FirstHeading d' ts before w rest := by
  obtain ⟨rfl, hcut⟩ := List.cons.inj h.cut
  have hdepth := h.depth
  rw [List.map_cons, through_cons, hd] at hdepth
  refine ⟨rfl, hcut, h.valid, hdepth, fun p q hpq hlen hp => ?_⟩
  refine h.first (t.lexeme :: p) q (by rw [List.map_cons, hpq]; rfl) (by simpa using hlen) ?_
  rw [through_cons, hd]
  exact hp

theorem Heading.tokens_inj {w w' : Heading} {rest rest' : List Token}
    (h : w.tokens ++ rest = w'.tokens ++ rest') :
    w = w' ∧ rest = rest' := by
  cases w
  cases w'
  simpa [Heading.tokens, and_assoc] using h

theorem not_isHeading_of_entryAt? {ts : List Token} (h : entryAt? (placed 0 ts) = none) :
    isHeading (ts.map Token.lexeme) = false := by
  rw [← Bool.not_eq_true]
  intro hhead
  obtain ⟨w, rest, hcut, hvalid⟩ := isHeading_iff.mp hhead
  rw [entryAt?_eq_some_iff.mpr ⟨rfl, w, rest, hcut, hvalid, rfl⟩] at h
  cases h

/-- What `findEntry` finds in a balanced source. -/
theorem findEntry_eq_some_iff {d e : Nat} {ts : List Token} (hbal : through d (ts.map Token.lexeme) = some e)
    {entry : Entry} :
    findEntry (placed d ts) = some entry ↔
      ∃ before w rest, FirstHeading d ts before w rest ∧
        entry = ⟨placed d before, w.ret, w.name.text, w.dialect, rest⟩ := by
  induction ts generalizing d entry with
  | nil =>
    constructor
    · intro h
      simp [placed, findEntry] at h
    · intro hparts
      obtain ⟨before, w, rest, h, _⟩ := hparts
      have := congrArg List.length h.cut
      simp [Heading.tokens] at this
  | cons t ts ih =>
    rw [List.map_cons, through_cons] at hbal
    obtain ⟨d', hd, hrestBal⟩ := Option.bind_eq_some_iff.mp hbal
    have hplaced : (t, d) :: placed d' ts = placed d (t :: ts) := by rw [placed, hd, Option.getD_some]
    rw [placed, findEntry, hd, Option.getD_some, hplaced]
    cases hat : entryAt? (placed d (t :: ts)) with
    | some found =>
      obtain ⟨rfl, w, rest, hcut, hvalid, rfl⟩ := entryAt?_eq_some_iff.mp hat
      constructor
      · intro h
        obtain rfl := Option.some.inj h
        exact ⟨[], w, rest, ⟨hcut, hvalid, rfl, fun _ _ _ hlt => absurd hlt (by simp)⟩, rfl⟩
      · intro hparts
        obtain ⟨before, w', rest', h, hentry⟩ := hparts
        subst hentry
        cases before with
        | nil =>
          obtain ⟨rfl, rfl⟩ := Heading.tokens_inj (hcut.symm.trans h.cut)
          rfl
        | cons u before =>
          have hnot := h.first [] ((t :: ts).map Token.lexeme) rfl (by simp) rfl
          rw [isHeading_iff.mpr ⟨w, rest, hcut, hvalid⟩] at hnot
          cases hnot
    | none =>
      have hnot : d = 0 → isHeading ((t :: ts).map Token.lexeme) = false := by
        intro h0
        subst h0
        exact not_isHeading_of_entryAt? hat
      simp only [Option.map_eq_some_iff]
      constructor
      · intro hparts
        obtain ⟨found, hfound, hentry⟩ := hparts
        obtain ⟨before, w, rest, h, rfl⟩ := (ih hrestBal).mp hfound
        exact ⟨t :: before, w, rest, h.cons hd hnot, by rw [← hentry]; simp [placed, hd]⟩
      · intro hparts
        obtain ⟨before, w, rest, h, hentry⟩ := hparts
        cases before with
        | nil =>
          have := hnot (by simpa using h.depth)
          rw [isHeading_iff.mpr ⟨w, rest, h.cut, h.valid⟩] at this
          cases this
        | cons u before =>
          obtain ⟨rfl, hrest⟩ := h.of_cons hd
          exact ⟨_, (ih hrestBal).mpr ⟨before, w, rest, hrest, rfl⟩, by rw [hentry]; simp [placed, hd]⟩

theorem findEntry_eq_none_iff {d e : Nat} {ts : List Token}
    (hbal : through d (ts.map Token.lexeme) = some e) :
    findEntry (placed d ts) = none ↔
      ∀ p q, ts.map Token.lexeme = p ++ q → through d p = some 0 → isHeading q = false := by
  constructor
  · intro hnone p q hcut hdepth
    rw [← Bool.not_eq_true]
    intro hq
    -- the shortest way to a heading leads to the first one
    induction hn : p.length using Nat.strongRecOn generalizing p q with
    | ind n ih =>
      obtain ⟨ts₁, ts₂, rfl, rfl, rfl⟩ := List.map_eq_append_iff.mp hcut
      obtain ⟨w, rest, rfl, hvalid⟩ := isHeading_iff.mp hq
      have hfirst : FirstHeading d (ts₁ ++ (w.tokens ++ rest)) ts₁ w rest := by
        refine ⟨rfl, hvalid, hdepth, fun p' q' hcut' hlen hdepth' => ?_⟩
        rw [← Bool.not_eq_true]
        exact fun hq' => ih _ (by rw [← hn, List.length_map]; exact hlen) p' q' hcut' hdepth' hq' rfl
      rw [(findEntry_eq_some_iff hbal).mpr ⟨_, _, _, hfirst, rfl⟩] at hnone
      cases hnone
  · intro hall
    cases hfound : findEntry (placed d ts) with
    | none => rfl
    | some entry =>
      obtain ⟨before, w, rest, h, -⟩ := (findEntry_eq_some_iff hbal).mp hfound
      have := hall (before.map Token.lexeme) ((w.tokens ++ rest).map Token.lexeme)
        (by rw [h.cut, List.map_append]) h.depth
      rw [isHeading_iff.mpr ⟨w, rest, rfl, h.valid⟩] at this
      cases this

/-! ## Insertions -/

/-- Whether a lexeme is one of some words. -/
def spells (words : List String) (x : Lexeme) : Bool := words.any (·.toList == x.2)

theorem spells_iff {words : List String} {x : Lexeme} : spells words x = true ↔ word x ∈ words := by
  simp only [spells, List.any_eq_true, beq_iff_eq, word]
  constructor
  · intro h
    obtain ⟨w, hw, hx⟩ := h
    rwa [← hx, String.ofList_toList]
  · intro h
    exact ⟨_, h, String.toList_ofList⟩

/-- Lexemes that no heading starts in and none that starts before them goes through: the first
two are no two neighbours of a heading. -/
def KeepsHeadings : List Lexeme → Prop
  | x :: y :: zs =>
    (∀ u ∈ x :: y :: zs, spells vectorTypes u = false) ∧
      spells ["main", "(", "float2", "vec2", ")", "\x7b"] x = false ∧ spells [")"] y = false
  | _ => False

instance (xs : List Lexeme) : Decidable (KeepsHeadings xs) := by
  unfold KeepsHeadings
  split <;> infer_instance

/-- A heading that starts before an insertion is over before it. -/
theorem isHeading_of_insertion {xs p q : List Lexeme} (hxs : KeepsHeadings xs) (hp : p ≠ [])
    (h : isHeading (p ++ (xs ++ q)) = true) (q' : List Lexeme) : isHeading (p ++ q') = true := by
  rcases xs with _ | ⟨x, _ | ⟨y, zs⟩⟩
  · exact hxs.elim
  · exact hxs.elim
  obtain ⟨-, hx, hy⟩ := hxs
  rw [← Bool.not_eq_true, spells_iff] at hx hy
  simp only [List.mem_cons, List.not_mem_nil, or_false, not_or] at hx hy
  obtain ⟨hnmain, hnopening, hnfloat, hnvec, hnclosing, hnbrace⟩ := hx
  obtain ⟨ret, main, opening, type, name, closing, brace, rest, hcut, hret, hmain, hopening, htype,
      hname, hclosing, hbrace⟩ := isHeading_iff_lexemes.mp h
  -- by how many lexemes of the heading stand before the insertion
  rcases p with _ | ⟨a, _ | ⟨b, _ | ⟨c, _ | ⟨d, _ | ⟨e, _ | ⟨f, _ | ⟨g, p⟩⟩⟩⟩⟩⟩⟩ <;>
    simp only [List.cons_append, List.nil_append, List.cons.injEq] at hcut
  · exact absurd rfl hp
  · obtain ⟨-, rfl, -⟩ := hcut
    exact absurd hmain hnmain
  · obtain ⟨-, -, rfl, -⟩ := hcut
    exact absurd hopening hnopening
  · obtain ⟨-, -, -, rfl, -⟩ := hcut
    simp [pairTypes, hnfloat, hnvec] at htype
  · obtain ⟨-, -, -, -, -, rfl, -⟩ := hcut
    exact absurd hclosing hy
  · obtain ⟨-, -, -, -, -, rfl, -⟩ := hcut
    exact absurd hclosing hnclosing
  · obtain ⟨-, -, -, -, -, -, rfl, -⟩ := hcut
    exact absurd hbrace hnbrace
  · exact h

theorem not_isHeading_of_insertion {xs : List Lexeme} (hxs : KeepsHeadings xs) {a b q : List Lexeme}
    (h : xs = a ++ b) (hb : b ≠ []) : isHeading (b ++ q) = false := by
  obtain ⟨x, b, rfl⟩ := List.exists_cons_of_ne_nil hb
  have hx : spells vectorTypes x = false := by
    rcases xs with _ | ⟨u, _ | ⟨v, zs⟩⟩
    · exact hxs.elim
    · exact hxs.elim
    · exact hxs.1 x (by rw [h]; simp)
  rw [← Bool.not_eq_true]
  intro hhead
  obtain ⟨ret, _, _, _, _, _, _, _, hcut, hret, -⟩ := isHeading_iff_lexemes.mp hhead
  obtain ⟨rfl, -⟩ := List.cons.inj hcut
  rw [spells_iff.mpr hret] at hx
  cases hx

end ShaderLoom.Morph
