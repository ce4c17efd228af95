/-
  ShaderLoom.Proofs.Lexeme.Lookahead — what a lexeme sees of the text behind it.

  A lexeme looks past its own end: a run at the next character, a number at up to three, and a
  slash before a star at all that follows, for a `*/`. `Mimics v w` says that whatever `w` could
  add to a lexeme before it, `v` could add too. It is kept when the same text is put before both
  (`Mimics.append`), so a row of lexemes that stands before `v` stands before `w`
  (`Row.transport`). The one lexeme that asks for more is a line comment at the end of the row:
  a line that was over must be over still.

  A barrier (`isBarrier`) goes on no number and neither opens nor closes a comment. Behind one,
  texts differ for the lexemes before it only in whether they close a comment
  (`Mimics.of_barrier`).
-/

import ShaderLoom.Proofs.Lexeme.Row

namespace ShaderLoom.Lexeme

open ShaderLoom.Text

def startsWith (p : Char → Bool) : List Char → Bool
  | [] => false
  | c :: _ => p c

@[simp] theorem startsWith_nil (p : Char → Bool) : startsWith p [] = false := rfl
@[simp] theorem startsWith_cons (p : Char → Bool) (c : Char) (cs : List Char) :
    startsWith p (c :: cs) = p c := rfl

theorem takeWhile_append_eq_left {p : Char → Bool} {a r : List Char} :
    (a ++ r).takeWhile p = a ↔ (∀ c ∈ a, p c = true) ∧ startsWith p r = false := by
  induction a with
  | nil => cases r with
    | nil => simp
    | cons c r => by_cases h : p c <;> simp [h]
  | cons c a ih => by_cases h : p c <;> simp [h, ih]

theorem takeWhile_eq_nil {p : Char → Bool} {cs : List Char} :
    cs.takeWhile p = [] ↔ startsWith p cs = false := by
  simpa using takeWhile_append_eq_left (p := p) (a := []) (r := cs)

/-! ## Closing a comment -/

/-- Whether a block comment left open before a text ends in it. -/
def Closes (cs : List Char) : Prop := blockEnd? cs ≠ none

theorem not_closes {cs : List Char} : ¬ Closes cs ↔ blockEnd? cs = none := by simp [Closes]

theorem closes_cons {c : Char} {cs : List Char} :
    Closes (c :: cs) ↔ (c = '*' ∧ startsWith (· == '/') cs = true) ∨ Closes cs := by
  unfold Closes
  by_cases h : c = '*' ∧ startsWith (· == '/') cs = true
  · obtain ⟨rfl, hs⟩ := h
    cases cs with
    | nil => simp at hs
    | cons d cs =>
      have : d = '/' := by simpa using hs
      subst this
      simp [blockEnd?]
  · have hne : ∀ rest, c = '*' → cs = '/' :: rest → False := fun rest hc hr => h ⟨hc, by simp [hr]⟩
    rw [blockEnd?.eq_2 _ _ hne]
    simp [h]

@[simp] theorem not_closes_nil : ¬ Closes [] := by simp [Closes, blockEnd?]

/-- Behind the same text: a comment is closed in it, across its end, or after it. -/
theorem Closes.append_mono {v w : List Char} (hc : Closes w → Closes v)
    (hs : startsWith (· == '/') w = true → startsWith (· == '/') v = true) (p : List Char)
    (h : Closes (p ++ w)) : Closes (p ++ v) := by
  induction p with
  | nil => exact hc h
  | cons c p ih =>
    rw [List.cons_append, closes_cons] at h ⊢
    rcases h with ⟨rfl, h⟩ | h
    · cases p with
      | nil => exact Or.inl ⟨rfl, hs h⟩
      | cons d p => exact Or.inl ⟨rfl, h⟩
    · exact Or.inr (ih h)

theorem Closes.append_left {v : List Char} (h : Closes v) (p : List Char) : Closes (p ++ v) := by
  induction p with
  | nil => exact h
  | cons c p ih => exact closes_cons.mpr (Or.inr ih)

theorem blockEnd?_append {cs body : List Char} (h : blockEnd? cs = some body) (w : List Char) :
    blockEnd? (cs ++ w) = some body := by
  induction cs using blockEnd?.induct generalizing body with
  | case1 rest => simpa [blockEnd?] using h
  | case2 c rest hne ih =>
    rw [blockEnd?.eq_2 _ _ hne] at h
    obtain ⟨b, hb, rfl⟩ := Option.map_eq_some_iff.mp h
    have hne' : ∀ r, c = '*' → rest ++ w = '/' :: r → False := by
      intro r hc hr
      cases rest with
      | nil => simp [blockEnd?] at hb
      | cons d rest => exact hne rest hc (by rw [(List.cons.inj hr).1])
    rw [List.cons_append, blockEnd?.eq_2 _ _ hne', ih hb]
    rfl
  | case3 => simp [blockEnd?] at h

/-- The end of a comment is found in the comment itself. -/
theorem blockEnd?_self {body v : List Char} (h : blockEnd? (body ++ v) = some body) :
    blockEnd? body = some body := by
  induction body with
  | nil =>
    -- the shortest comment end has two characters
    cases v with
    | nil => simp [blockEnd?] at h
    | cons c v =>
      unfold blockEnd? at h
      split at h <;> simp at h
  | cons c body ih =>
    by_cases hc : c = '*' ∧ startsWith (· == '/') (body ++ v) = true
    · obtain ⟨rfl, hs⟩ := hc
      obtain ⟨r, hr⟩ : ∃ r, body ++ v = '/' :: r := by
        cases hbv : body ++ v with
        | nil => simp [hbv] at hs
        | cons d r => exact ⟨r, by simpa [hbv] using hs⟩
      rw [List.cons_append, hr] at h
      have : body = ['/'] := by simpa [blockEnd?] using h.symm
      subst this
      rfl
    · have hne : ∀ r, c = '*' → body ++ v = '/' :: r → False := fun r h1 h2 => hc ⟨h1, by simp [h2]⟩
      rw [List.cons_append, blockEnd?.eq_2 _ _ hne] at h
      obtain ⟨b, hb, hbody⟩ := Option.map_eq_some_iff.mp h
      obtain ⟨-, rfl⟩ := List.cons.inj hbody
      have hne' : ∀ r, c = '*' → b = '/' :: r → False := fun r h1 h2 => hne (r ++ v) h1 (by simp [h2])
      rw [blockEnd?.eq_2 _ _ hne', ih hb]
      rfl

theorem blockEnd?_getLast? {cs body : List Char} (h : blockEnd? cs = some body) :
    body.getLast? = some '/' := by
  induction cs using blockEnd?.induct generalizing body with
  | case1 rest =>
    obtain rfl : ['*', '/'] = body := by simpa [blockEnd?] using h
    rfl
  | case2 c rest hne ih =>
    rw [blockEnd?.eq_2 _ _ hne] at h
    obtain ⟨b, hb, rfl⟩ := Option.map_eq_some_iff.mp h
    rw [List.getLast?_cons, ih hb]
    rfl
  | case3 => simp [blockEnd?] at h

/-! ## Inert texts -/

/-- No comment is closed in the text or across its end. -/
def Inert (u : List Char) : Prop := ∀ v, Closes (u ++ v) → Closes v

theorem inert_nil : Inert [] := fun _ => id

theorem Inert.append {u u' : List Char} (h : Inert u) (h' : Inert u') : Inert (u ++ u') := by
  intro v hv
  rw [List.append_assoc] at hv
  exact h' v (h _ hv)

theorem inert_of_no_star {u : List Char} (h : '*' ∉ u) : Inert u := by
  intro v hv
  induction u with
  | nil => exact hv
  | cons c u ih =>
    rcases closes_cons.mp hv with ⟨rfl, -⟩ | hv
    · exact absurd (List.mem_cons_self ..) h
    · exact ih (fun hmem => h (List.mem_cons_of_mem c hmem)) hv

/-- A text that closes no comment even with a slash behind it is inert. -/
theorem inert_of_test {u : List Char} (h : blockEnd? (u ++ ['/']) = none) : Inert u := by
  rw [← not_closes] at h
  intro v hv
  induction u with
  | nil => exact hv
  | cons c u ih =>
    rw [List.cons_append, closes_cons] at h hv
    rcases hv with ⟨hc, hs⟩ | hv
    · refine absurd (Or.inl ⟨hc, ?_⟩) h
      cases u with
      | nil => rfl
      | cons d u => exact hs
    · exact ih (fun h' => h (Or.inr h')) hv

/-! ## Mimicry -/

/-- The classes of characters that a lexeme asks for directly behind it. -/
def asked : List (Char → Bool) := [isBlank, isWord, isDigit, isSuffix, (· == '.'), (· == '/')]

/-- Whether a digit comes first, or behind a sign. -/
def startsSigned (cs : List Char) : Bool := startsWith isDigit (cs.drop (sign cs).length)

/-- Whatever `w` could add to a lexeme before it, `v` could add too. -/
structure Mimics (v w : List Char) : Prop where
  starts : ∀ p ∈ asked, startsWith p w = true → startsWith p v = true
  signed : startsSigned w = true → startsSigned v = true
  power : exponent w ≠ [] → exponent v ≠ []
  star : ∀ x, w = '*' :: x → ∃ y, v = '*' :: y ∧ (Closes x → Closes y)
  closes : Closes w → Closes v

namespace Mimics

variable {v w : List Char}

theorem not_starts (m : Mimics v w) {p : Char → Bool} (hp : p ∈ asked) (h : startsWith p v = false) :
    startsWith p w = false := by
  cases hw : startsWith p w with
  | false => rfl
  | true => rw [m.starts p hp hw] at h; cases h

theorem no_power (m : Mimics v w) (h : exponent v = []) : exponent w = [] :=
  Classical.byContradiction fun hw => m.power hw h

theorem exponent_cons_ne_nil {c : Char} {cs : List Char} :
    exponent (c :: cs) ≠ [] ↔ (c = 'e' ∨ c = 'E') ∧ startsSigned cs = true := by
  have hd : (cs.drop (sign cs).length).takeWhile isDigit ≠ [] ↔ startsSigned cs = true := by
    rw [startsSigned, ← Bool.not_eq_false, ← takeWhile_eq_nil]
  simp only [exponent, ← hd]
  split
  · simp_all
  · simp_all

theorem cons (m : Mimics v w) (c : Char) : Mimics (c :: v) (c :: w) where
  starts _ _ h := h
  signed h := by
    unfold startsSigned at h ⊢
    by_cases hc : c = '+' ∨ c = '-'
    · have hdrop : ∀ u : List Char, (c :: u).drop (sign (c :: u)).length = u := by
        intro u; rcases hc with rfl | rfl <;> simp [sign]
      rw [hdrop] at h ⊢
      exact m.starts isDigit (by simp [asked]) h
    · have hdrop : ∀ u : List Char, (c :: u).drop (sign (c :: u)).length = c :: u := by
        intro u
        have : sign (c :: u) = [] := by unfold sign; split <;> simp_all
        simp [this]
      rw [hdrop] at h ⊢
      exact h
  power h := by
    rw [exponent_cons_ne_nil] at h ⊢
    exact ⟨h.1, m.signed h.2⟩
  star x h := by
    obtain ⟨rfl, rfl⟩ := List.cons.inj h
    exact ⟨v, rfl, m.closes⟩
  closes h := by
    rw [closes_cons] at h ⊢
    exact h.imp (fun ⟨hc, hs⟩ => ⟨hc, m.starts _ (by simp [asked]) hs⟩) m.closes

theorem append (m : Mimics v w) (p : List Char) : Mimics (p ++ v) (p ++ w) := by
  induction p with
  | nil => exact m
  | cons c p ih => exact ih.cons c

end Mimics

/-- A character that goes on no number and neither opens nor closes a comment. -/
def isBarrier (c : Char) : Bool :=
  !isDigit c && !isSuffix c && !(['e', 'E', '+', '-', '.', '/', '*'].contains c)

theorem Mimics.of_barrier {v w : List Char} {b : Char} (hb : isBarrier b = true)
    (blank : isBlank b = true → startsWith isBlank v = true)
    (word : isWord b = true → startsWith isWord v = true)
    (closes : Closes w → Closes v) : Mimics v (b :: w) := by
  simp only [isBarrier, Bool.and_eq_true, Bool.not_eq_true', List.contains_eq_mem, decide_eq_false_iff_not,
    List.mem_cons, List.not_mem_nil, or_false, not_or] at hb
  obtain ⟨⟨hdigit, hsuffix⟩, he, hE, hplus, hminus, hpoint, hslash, hstar⟩ := hb
  refine ⟨?_, ?_, ?_, ?_, ?_⟩
  · intro p hp h
    simp only [asked, List.mem_cons, List.not_mem_nil, or_false] at hp
    rcases hp with rfl | rfl | rfl | rfl | rfl | rfl
    · exact blank h
    · exact word h
    · simp [hdigit] at h
    · simp [hsuffix] at h
    · simp [hpoint] at h
    · simp [hslash] at h
  · intro h
    have : sign (b :: w) = [] := by unfold sign; split <;> simp_all
    simp [startsSigned, this, hdigit] at h
  · intro h
    rw [exponent_cons_ne_nil] at h
    simp [he, hE] at h
  · intro x h
    exact absurd (List.cons.inj h).1 hstar
  · intro h
    rw [closes_cons] at h
    exact closes (h.resolve_left fun h => hstar h.1)

/-- Behind the same barrier. -/
theorem Mimics.behind {v w : List Char} {b : Char} (hb : isBarrier b = true) (closes : Closes w → Closes v) :
    Mimics (b :: v) (b :: w) :=
  .of_barrier hb id id fun h => closes_cons.mpr (Or.inr (closes h))

end ShaderLoom.Lexeme
