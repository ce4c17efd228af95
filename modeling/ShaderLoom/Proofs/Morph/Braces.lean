/-
  ShaderLoom.Proofs.Morph.Braces — the brace depth along a row of tokens.

  `through d xs` is the depth that lexemes lead to from the depth `d`, none once a brace closes
  that none opened. It is the count of opening less closing braces, as long as no prefix closes
  more than it opens (`through_eq_some_iff`); the depths of a source exist exactly when it leads
  from zero to zero (`exists_depths_iff`). A block that the depths say is closed has a body
  (`exists_blockBody`), and what the body is, is balanced in itself (`blockBody_spec`).
-/

import ShaderLoom.Morph.Site
import ShaderLoom.Proofs.Token.Layout

namespace ShaderLoom.Morph

open ShaderLoom.Lexeme

def opens (x : Lexeme) : Bool := x.2 == ['\x7b']

def closes (x : Lexeme) : Bool := x.2 == ['\x7d']

/-- The depth behind a lexeme. -/
def depthBehind (d : Nat) (x : Lexeme) : Option Nat :=
  if opens x then some (d + 1)
  else if closes x then (if d = 0 then none else some (d - 1))
  else some d

/-- The depth that lexemes lead to. -/
def through (d : Nat) (xs : List Lexeme) : Option Nat := xs.foldlM depthBehind d

@[simp] theorem through_nil (d : Nat) : through d [] = some d := rfl

theorem through_cons (d : Nat) (x : Lexeme) (xs : List Lexeme) :
    through d (x :: xs) = (depthBehind d x).bind (through · xs) := by
  simp [through, List.foldlM_cons]

theorem through_append (d : Nat) (xs ys : List Lexeme) :
    through d (xs ++ ys) = (through d xs).bind (through · ys) := by
  simp [through, List.foldlM_append]

theorem through_append_of {d e : Nat} {xs : List Lexeme} (h : through d xs = some e) (ys : List Lexeme) :
    through d (xs ++ ys) = through e ys := by
  rw [through_append, h]
  rfl

theorem opens_lexeme (t : Token) : opens t.lexeme = true ↔ t.text = "\x7b" := by
  simp [opens, Token.lexeme, ← String.toList_inj]

theorem closes_lexeme (t : Token) : closes t.lexeme = true ↔ t.text = "\x7d" := by
  simp [closes, Token.lexeme, ← String.toList_inj]

theorem not_closes_of_opens {x : Lexeme} (h : opens x = true) : closes x = false := by
  simp only [opens, beq_iff_eq] at h
  simp [closes, h]

/-! ## Counting -/

theorem depthBehind_eq_some_iff {d e : Nat} {x : Lexeme} :
    depthBehind d x = some e ↔ d + (opens x).toNat = e + (closes x).toNat ∧ (closes x).toNat ≤ d := by
  unfold depthBehind
  cases ho : opens x with
  | true =>
    rw [not_closes_of_opens ho]
    simp
  | false =>
    cases hc : closes x with
    | true =>
      by_cases hd : d = 0
      · simp [hd]
      · simp [hd]
        omega
    | false => simp

theorem through_eq_some_iff {d e : Nat} {xs : List Lexeme} :
    through d xs = some e ↔
      (∀ p, p <+: xs → p.countP closes ≤ d + p.countP opens) ∧
        d + xs.countP opens = e + xs.countP closes := by
  induction xs generalizing d with
  | nil => simp
  | cons x xs ih =>
    have hcount : ∀ (q : Lexeme → Bool) (p : List Lexeme), (x :: p).countP q = p.countP q + (q x).toNat := by
      intro q p
      rw [List.countP_cons]
      cases q x <;> simp
    rw [through_cons, Option.bind_eq_some_iff]
    constructor
    · intro h
      obtain ⟨d', hx, hxs⟩ := h
      obtain ⟨hpre, htotal⟩ := ih.mp hxs
      obtain ⟨hd, hle⟩ := depthBehind_eq_some_iff.mp hx
      refine ⟨fun p hp => ?_, ?_⟩
      · cases p with
        | nil => simp
        | cons y p =>
          obtain ⟨rfl, hrest⟩ := List.cons_prefix_cons.mp hp
          have := hpre p hrest
          rw [hcount, hcount]
          omega
      · rw [hcount, hcount]
        omega
    · intro h
      obtain ⟨hpre, htotal⟩ := h
      rw [hcount, hcount] at htotal
      have hone := hpre [x] (by simp)
      rw [hcount, hcount] at hone
      simp only [List.countP_nil] at hone
      refine ⟨d + (opens x).toNat - (closes x).toNat, depthBehind_eq_some_iff.mpr ?_,
        ih.mpr ⟨fun p hp => ?_, ?_⟩⟩
      · have : (closes x).toNat ≤ d := by
          cases ho : opens x with
          | true => simp [not_closes_of_opens ho]
          | false => simp only [ho, Bool.toNat_false] at hone; omega
        omega
      · have := hpre (x :: p) (List.cons_prefix_cons.mpr ⟨rfl, hp⟩)
        rw [hcount, hcount] at this
        omega
      · omega

/-- The depth from a lower start is lower by as much. -/
theorem through_add {d e : Nat} {xs : List Lexeme} (h : through d xs = some e) (k : Nat) :
    through (d + k) xs = some (e + k) := by
  rw [through_eq_some_iff] at h ⊢
  exact ⟨fun p hp => by have := h.1 p hp; omega, by omega⟩

theorem through_balanced {xs : List Lexeme} (h : through 0 xs = some 0) (d : Nat) :
    through d xs = some d := by
  have := through_add h d
  simpa using this

/-! ## The depths of a source -/

theorem depthsFrom_cons (d : Nat) (t : Token) (ts : List Token) :
    depthsFrom d (t :: ts) = (depthBehind d t.lexeme).bind fun e => (depthsFrom e ts).map (d :: ·) := by
  unfold depthBehind
  by_cases ho : t.text = "\x7b"
  · rw [if_pos ((opens_lexeme t).mpr ho)]
    simp [depthsFrom, ho]
  · rw [if_neg fun h => ho ((opens_lexeme t).mp h)]
    by_cases hc : t.text = "\x7d"
    · rw [if_pos ((closes_lexeme t).mpr hc)]
      cases d with
      | zero => simp [depthsFrom, hc]
      | succ d => simp [depthsFrom, hc]
    · rw [if_neg fun h => hc ((closes_lexeme t).mp h)]
      simp [depthsFrom, ho, hc]

theorem exists_depths_iff {d : Nat} {ts : List Token} :
    (∃ depths, depthsFrom d ts = some depths) ↔ through d (ts.map Token.lexeme) = some 0 := by
  induction ts generalizing d with
  | nil => by_cases hd : d = 0 <;> simp [depthsFrom, hd]
  | cons t ts ih =>
    rw [List.map_cons, through_cons]
    simp only [depthsFrom_cons]
    cases h : depthBehind d t.lexeme with
    | none => simp
    | some e =>
      simp only [Option.bind_some, Option.map_eq_some_iff, ← ih]
      constructor
      · intro hparts
        obtain ⟨_, ds, hds, _⟩ := hparts
        exact ⟨ds, hds⟩
      · intro hparts
        obtain ⟨ds, hds⟩ := hparts
        exact ⟨d :: ds, ds, hds, rfl⟩

/-- Tokens with the depth before each. -/
def placed (d : Nat) : List Token → List Placed
  | [] => []
  | t :: ts => (t, d) :: placed ((depthBehind d t.lexeme).getD 0) ts

@[simp] theorem placed_tokens (d : Nat) (ts : List Token) : (placed d ts).map (·.1) = ts := by
  induction ts generalizing d with
  | nil => rfl
  | cons t ts ih => simp [placed, ih]

theorem depths_eq {d : Nat} {ts : List Token} {depths : List Nat} (h : depthsFrom d ts = some depths) :
    depths = (placed d ts).map (·.2) := by
  induction ts generalizing d depths with
  | nil =>
    rw [depthsFrom] at h
    split at h <;> cases h
    rfl
  | cons t ts ih =>
    rw [depthsFrom_cons] at h
    obtain ⟨e, he, h⟩ := Option.bind_eq_some_iff.mp h
    obtain ⟨ds, hds, rfl⟩ := Option.map_eq_some_iff.mp h
    rw [placed, he, ih hds]
    rfl

theorem zip_depthsFrom {d : Nat} {ts : List Token} {depths : List Nat} (h : depthsFrom d ts = some depths) :
    ts.zip depths = placed d ts :=
  (List.zip_of_prod (placed_tokens d ts) (depths_eq h).symm).symm

theorem placed_append {d e : Nat} {ts : List Token} (h : through d (ts.map Token.lexeme) = some e)
    (us : List Token) :
    placed d (ts ++ us) = placed d ts ++ placed e us := by
  induction ts generalizing d with
  | nil =>
    obtain rfl : d = e := by simpa using h
    rfl
  | cons t ts ih =>
    rw [List.map_cons, through_cons] at h
    obtain ⟨d', hd, h⟩ := Option.bind_eq_some_iff.mp h
    simp only [List.cons_append, placed, hd, Option.getD_some, ih h]

/-! ## Blocks -/

theorem blockBody_cons (d : Nat) (t : Token) (ts : List Token) :
    blockBody d (t :: ts) =
      if closes t.lexeme ∧ d = 0 then some []
      else (depthBehind d t.lexeme).bind fun e => (blockBody e ts).map (t :: ·) := by
  unfold depthBehind
  by_cases ho : t.text = "\x7b"
  · have hc := not_closes_of_opens ((opens_lexeme t).mpr ho)
    simp [blockBody, ho, (opens_lexeme t).mpr ho, hc]
  · have ho' : opens t.lexeme = false := by
      rw [← Bool.not_eq_true]; exact fun h => ho ((opens_lexeme t).mp h)
    by_cases hc : t.text = "\x7d"
    · cases d with
      | zero => simp [blockBody, hc, (closes_lexeme t).mpr hc]
      | succ d => simp [blockBody, hc, ho', (closes_lexeme t).mpr hc]
    · have hc' : closes t.lexeme = false := by
        rw [← Bool.not_eq_true]; exact fun h => hc ((closes_lexeme t).mp h)
      simp [blockBody, ho, hc, ho', hc']

/-- The body of a block: balanced, and followed by the brace that closes the block. -/
theorem blockBody_spec {d : Nat} {ts body : List Token} (h : blockBody d ts = some body) :
    through d (body.map Token.lexeme) = some 0 ∧
      ∃ brace rest, ts = body ++ brace :: rest ∧ brace.text = "\x7d" := by
  induction ts generalizing d body with
  | nil => simp [blockBody] at h
  | cons t ts ih =>
    rw [blockBody_cons] at h
    split at h
    · rename_i hc
      obtain rfl := Option.some.inj h
      exact ⟨by simp [hc.2], t, ts, rfl, (closes_lexeme t).mp hc.1⟩
    · obtain ⟨e, he, h⟩ := Option.bind_eq_some_iff.mp h
      obtain ⟨b, hb, rfl⟩ := Option.map_eq_some_iff.mp h
      obtain ⟨hthrough, brace, rest, rfl, hbrace⟩ := ih hb
      refine ⟨?_, brace, rest, rfl, hbrace⟩
      rw [List.map_cons, through_cons, he]
      exact hthrough

/-- A block ends at the first brace that closes more than was opened in it. -/
theorem blockBody_of_through {d : Nat} {body rest : List Token} {brace : Token}
    (h : through d (body.map Token.lexeme) = some 0) (hbrace : brace.text = "\x7d") :
    blockBody d (body ++ brace :: rest) = some body := by
  induction body generalizing d with
  | nil =>
    obtain rfl : d = 0 := by simpa using h
    rw [List.nil_append, blockBody_cons, if_pos ⟨(closes_lexeme brace).mpr hbrace, rfl⟩]
  | cons t body ih =>
    rw [List.map_cons, through_cons] at h
    obtain ⟨e, he, h⟩ := Option.bind_eq_some_iff.mp h
    have hopen : ¬(closes t.lexeme ∧ d = 0) := by
      intro h
      obtain ⟨hc, rfl⟩ := h
      have := (depthBehind_eq_some_iff.mp he).2
      simp [hc] at this
    rw [List.cons_append, blockBody_cons, if_neg hopen, he, Option.bind_some, ih h]
    rfl

/-- A block that is open where the rest of a source begins, with `k` blocks around it, is closed where the rest
leads out of it. -/
theorem exists_blockBody {d k e : Nat} {ts : List Token}
    (h : through (d + 1 + k) (ts.map Token.lexeme) = some e) (he : e ≤ k) : ∃ body, blockBody d ts = some body := by
  induction ts generalizing d with
  | nil =>
    have : d + 1 + k = e := by simpa using h
    omega
  | cons t ts ih =>
    rw [blockBody_cons]
    by_cases hc : closes t.lexeme ∧ d = 0
    · exact ⟨[], if_pos hc⟩
    · rw [if_neg hc]
      rw [List.map_cons, through_cons] at h
      obtain ⟨f, hf, h⟩ := Option.bind_eq_some_iff.mp h
      obtain ⟨hd, hle⟩ := depthBehind_eq_some_iff.mp hf
      -- the depth stays above that of the blocks around, so as many braces fewer are open inside
      have hpos : (closes t.lexeme).toNat ≤ d := by
        cases hcl : closes t.lexeme with
        | false => simp
        | true =>
          have : d ≠ 0 := fun h0 => hc ⟨hcl, h0⟩
          simp only [Bool.toNat_true]
          omega
      have hbehind : depthBehind d t.lexeme = some (f - (1 + k)) := depthBehind_eq_some_iff.mpr (by omega)
      obtain ⟨body, hbody⟩ := ih (d := f - (1 + k)) (by rwa [show f - (1 + k) + 1 + k = f by omega])
      exact ⟨t :: body, by rw [hbehind, Option.bind_some, hbody]; rfl⟩

end ShaderLoom.Morph
