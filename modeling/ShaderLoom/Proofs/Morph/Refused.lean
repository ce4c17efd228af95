/-
  ShaderLoom.Proofs.Morph.Refused — the sources that the pass leaves as they are, and why.

  There are four reasons, tested in order: the name `u_morphProgress` is there already, the braces
  do not balance, no window `T main(P name) {` stands at depth zero, or the body of the first one
  has no return to change. Each is stated by counting braces over the tokens (`Refused`), apart
  from the scans. A source that none of them holds of is changed, and the pass makes no error on
  any (`wrap_fails_soft`).
-/

import ShaderLoom.Proofs.Morph.Changed
import ShaderLoom.Proofs.Morph.Loops

namespace ShaderLoom.Morph

open ShaderLoom.Token

/-! ## The reasons -/

def opened (ts : List Token) : Nat := ts.countP (·.text == "\x7b")

def closed (ts : List Token) : Nat := ts.countP (·.text == "\x7d")

/-- Some token is the name of the progress uniform. -/
def Carries (ts : List Token) : Prop := ∃ t ∈ ts, t.text = "u_morphProgress"

/-- Some prefix closes more braces than it opens, or the whole does not close as many. -/
def Unbalanced (ts : List Token) : Prop := (∃ p, p <+: ts ∧ opened p < closed p) ∨ opened ts ≠ closed ts

/-- A heading at depth zero. -/
structure Window (ts before : List Token) (w : Heading) (rest : List Token) : Prop where
  cut : ts = before ++ (w.tokens ++ rest)
  valid : w.Valid
  depth : opened before = closed before

def NoWindow (ts : List Token) : Prop := ∀ before w rest, ¬Window ts before w rest

/-- What stands between an opening brace before `rest` and the brace that closes it. -/
structure Body (rest body : List Token) : Prop where
  closing : ∃ brace more, rest = body ++ brace :: more ∧ brace.text = "\x7d"
  nested : ∀ p, p <+: body → closed p ≤ opened p
  depth : opened body = closed body

/-- The body of the first window has no return to change. -/
def NoReturn (ts : List Token) : Prop :=
  ∃ before w rest body, Window ts before w rest ∧
    (∀ before' w' rest', Window ts before' w' rest' → before.length ≤ before'.length) ∧
      Body rest body ∧ returns body = []

/-- The first of the reasons that holds. -/
inductive Refused (ts : List Token) : Note → Prop where
  | carries : Carries ts → Refused ts .alreadyMorphing
  | unbalanced : ¬Carries ts → Unbalanced ts → Refused ts .unbalancedBraces
  | noWindow : ¬Carries ts → ¬Unbalanced ts → NoWindow ts → Refused ts .noEntryPoint
  | noReturn : ¬Carries ts → ¬Unbalanced ts → ¬NoWindow ts → NoReturn ts → Refused ts .noReturn

theorem exists_refused_iff {ts : List Token} :
    (∃ note, Refused ts note) ↔ Carries ts ∨ Unbalanced ts ∨ NoWindow ts ∨ NoReturn ts := by
  constructor
  · intro h
    obtain ⟨note, h⟩ := h
    cases h with
    | carries h => exact Or.inl h
    | unbalanced _ h => exact Or.inr (Or.inl h)
    | noWindow _ _ h => exact Or.inr (Or.inr (Or.inl h))
    | noReturn _ _ _ h => exact Or.inr (Or.inr (Or.inr h))
  · intro h
    by_cases hc : Carries ts
    · exact ⟨_, .carries hc⟩
    by_cases hu : Unbalanced ts
    · exact ⟨_, .unbalanced hc hu⟩
    by_cases hw : NoWindow ts
    · exact ⟨_, .noWindow hc hu hw⟩
    exact ⟨_, .noReturn hc hu hw (((h.resolve_left hc).resolve_left hu).resolve_left hw)⟩

/-! ## What the scans test -/

theorem any_iff_carries {ts : List Token} : ts.any (·.text == "u_morphProgress") = true ↔ Carries ts := by
  simp [Carries]

theorem countP_opens (ts : List Token) : (ts.map lexeme).countP opens = opened ts := by
  rw [List.countP_map, opened]
  congr 1
  funext t
  rw [Bool.eq_iff_iff, beq_iff_eq]
  exact opens_lexeme t

theorem countP_closes (ts : List Token) : (ts.map lexeme).countP closes = closed ts := by
  rw [List.countP_map, closed]
  congr 1
  funext t
  rw [Bool.eq_iff_iff, beq_iff_eq]
  exact closes_lexeme t

theorem through_tokens_iff {d e : Nat} {ts : List Token} :
    through d (ts.map lexeme) = some e ↔
      (∀ p, p <+: ts → closed p ≤ d + opened p) ∧ d + opened ts = e + closed ts := by
  rw [through_eq_some_iff, countP_opens, countP_closes]
  refine and_congr_left fun _ => ⟨fun h p hp => ?_, fun h p hp => ?_⟩
  · have := h (p.map lexeme) (hp.map lexeme)
    rwa [countP_opens, countP_closes] at this
  · obtain ⟨q, hq⟩ := hp
    obtain ⟨p, q, rfl, rfl, -⟩ := List.map_eq_append_iff.mp hq.symm
    rw [countP_opens, countP_closes]
    exact h p (List.prefix_append p q)

/-- The braces of a row nest: no prefix closes more than it opens, and all are closed. -/
theorem through_zero_iff {ts : List Token} :
    through 0 (ts.map lexeme) = some 0 ↔ (∀ p, p <+: ts → closed p ≤ opened p) ∧ opened ts = closed ts := by
  simp only [through_tokens_iff, Nat.zero_add]

theorem not_unbalanced_iff {ts : List Token} : ¬Unbalanced ts ↔ through 0 (ts.map lexeme) = some 0 := by
  rw [through_zero_iff, Unbalanced, not_or]
  refine and_congr ⟨fun h p hp => ?_, ?_⟩ Decidable.not_not
  · exact Nat.le_of_not_lt fun hlt => h ⟨p, hp, hlt⟩
  · intro h hover
    obtain ⟨p, hp, hlt⟩ := hover
    exact absurd (h p hp) (Nat.not_le.mpr hlt)

theorem braceDepths_eq_none_iff {ts : List Token} : braceDepths ts = none ↔ Unbalanced ts := by
  constructor
  · intro h
    by_cases hu : Unbalanced ts
    · exact hu
    · obtain ⟨depths, hdepths⟩ := exists_depths_iff.mpr (not_unbalanced_iff.mp hu)
      rw [braceDepths, hdepths] at h
      cases h
  · intro hu
    cases hdepths : braceDepths ts with
    | none => rfl
    | some depths =>
      have hbal := exists_depths_iff.mp ⟨depths, hdepths⟩
      exact absurd hu (not_unbalanced_iff.mpr hbal)

/-- In a balanced source a way to depth zero is one that closes as many braces as it opens. -/
theorem through_prefix_iff {before more : List Token}
    (h : through 0 ((before ++ more).map lexeme) = some 0) :
    through 0 (before.map lexeme) = some 0 ↔ opened before = closed before := by
  rw [through_zero_iff]
  exact and_iff_right fun p hp => (through_zero_iff.mp h).1 p (hp.trans (List.prefix_append _ _))

theorem window_iff {ts before rest : List Token} {w : Heading} (hbal : through 0 (ts.map lexeme) = some 0) :
    Window ts before w rest ↔
      ts = before ++ (w.tokens ++ rest) ∧ w.Valid ∧ through 0 (before.map lexeme) = some 0 := by
  constructor
  · intro h
    obtain ⟨rfl, hvalid, hdepth⟩ := h
    exact ⟨rfl, hvalid, (through_prefix_iff hbal).mpr hdepth⟩
  · intro h
    obtain ⟨rfl, hvalid, hdepth⟩ := h
    exact ⟨rfl, hvalid, (through_prefix_iff hbal).mp hdepth⟩

theorem findEntry_eq_none_iff_noWindow {ts : List Token} (hbal : through 0 (ts.map lexeme) = some 0) :
    findEntry (placed 0 ts) = none ↔ NoWindow ts := by
  rw [findEntry_eq_none_iff hbal]
  constructor
  · intro h before w rest hwindow
    obtain ⟨rfl, hvalid, hdepth⟩ := (window_iff hbal).mp hwindow
    have := h (before.map lexeme) ((w.tokens ++ rest).map lexeme) List.map_append hdepth
    rw [isHeading_iff.mpr ⟨w, rest, rfl, hvalid⟩] at this
    cases this
  · intro h p q hcut hdepth
    rw [← Bool.not_eq_true]
    intro hq
    obtain ⟨before, behind, rfl, rfl, rfl⟩ := List.map_eq_append_iff.mp hcut
    obtain ⟨w, rest, rfl, hvalid⟩ := isHeading_iff.mp hq
    exact h before w rest ((window_iff hbal).mpr ⟨rfl, hvalid, hdepth⟩)

theorem firstHeading_iff {ts before rest : List Token} {w : Heading}
    (hbal : through 0 (ts.map lexeme) = some 0) :
    FirstHeading 0 ts before w rest ↔
      Window ts before w rest ∧ ∀ before' w' rest', Window ts before' w' rest' →
        before.length ≤ before'.length := by
  constructor
  · intro h
    refine ⟨(window_iff hbal).mpr ⟨h.cut, h.valid, h.depth⟩, fun before' w' rest' h' =>
      Nat.le_of_not_lt fun hlt => ?_⟩
    obtain ⟨hcut', hvalid', hdepth'⟩ := (window_iff hbal).mp h'
    have := h.first (before'.map lexeme) ((w'.tokens ++ rest').map lexeme)
      (by rw [hcut', List.map_append]) (by simpa using hlt)
      hdepth'
    rw [isHeading_iff.mpr ⟨w', rest', rfl, hvalid'⟩] at this
    cases this
  · intro h
    obtain ⟨hwindow, hfirst⟩ := h
    obtain ⟨hcut, hvalid, hdepth⟩ := (window_iff hbal).mp hwindow
    refine ⟨hcut, hvalid, hdepth, fun p q hpq hlt hp => ?_⟩
    rw [← Bool.not_eq_true]
    intro hq
    obtain ⟨before', behind, hcut', rfl, rfl⟩ := List.map_eq_append_iff.mp hpq
    obtain ⟨w', rest', rfl, hvalid'⟩ := isHeading_iff.mp hq
    have := hfirst before' w' rest' ((window_iff hbal).mpr ⟨hcut', hvalid', hp⟩)
    rw [List.length_map] at hlt
    omega

theorem blockBody_eq_some_iff {rest body : List Token} : blockBody 0 rest = some body ↔ Body rest body := by
  constructor
  · intro h
    obtain ⟨hthrough, hclosing⟩ := blockBody_spec h
    exact ⟨hclosing, (through_zero_iff.mp hthrough).1, (through_zero_iff.mp hthrough).2⟩
  · intro h
    obtain ⟨⟨brace, more, rfl, hbrace⟩, hnested, hdepth⟩ := h
    exact blockBody_of_through (through_zero_iff.mpr ⟨hnested, hdepth⟩) hbrace

/-! ## The tests in order -/

theorem refused_of_planOf {source : String} {note : Note} (h : planOf source = .error note) :
    Refused (significant (tokenize source)) note := by
  unfold planOf plan at h
  generalize hts : significant (tokenize source) = ts at h ⊢
  split at h
  · rename_i hany
    obtain rfl := Except.error.inj h
    exact .carries (any_iff_carries.mp hany)
  rename_i hany
  have hcarries : ¬Carries ts := fun hc => hany (any_iff_carries.mpr hc)
  split at h
  · rename_i hdepths
    obtain rfl := Except.error.inj h
    exact .unbalanced hcarries (braceDepths_eq_none_iff.mp hdepths)
  rename_i depths hdepths
  have hbal := exists_depths_iff.mp ⟨depths, hdepths⟩
  have hbalanced := not_unbalanced_iff.mpr hbal
  rw [zip_depthsFrom hdepths] at h
  split at h
  · rename_i hentry
    obtain rfl := Except.error.inj h
    exact .noWindow hcarries hbalanced ((findEntry_eq_none_iff_noWindow hbal).mp hentry)
  rename_i entry hentry
  have hwindow : ¬NoWindow ts := by
    intro hno
    rw [(findEntry_eq_none_iff_noWindow hbal).mpr hno] at hentry
    cases hentry
  obtain ⟨before, w, rest, hfirst, rfl⟩ := (findEntry_eq_some_iff hbal).mp hentry
  obtain ⟨body, -, -, hbody, -, -⟩ := exists_body (hts ▸ hbal) (hts ▸ hfirst)
  simp only [hbody, Option.getD_some] at h
  split at h
  · rename_i hreturns
    obtain rfl := Except.error.inj h
    obtain ⟨hat, hleast⟩ := (firstHeading_iff hbal).mp hfirst
    exact .noReturn hcarries hbalanced hwindow
      ⟨before, w, rest, body, hat, hleast, blockBody_eq_some_iff.mp hbody, List.isEmpty_iff.mp hreturns⟩
  · cases h

theorem planOf_of_refused {source : String} {note : Note}
    (h : Refused (significant (tokenize source)) note) :
    planOf source = .error note := by
  unfold planOf plan
  generalize significant (tokenize source) = ts at h ⊢
  cases h with
  | carries hc => rw [if_pos (any_iff_carries.mpr hc)]
  | unbalanced hc hu =>
    rw [if_neg fun hany => hc (any_iff_carries.mp hany), braceDepths_eq_none_iff.mpr hu]
  | noWindow hc hu hw =>
    have hbal := not_unbalanced_iff.mp hu
    obtain ⟨depths, hdepths⟩ := exists_depths_iff.mpr hbal
    rw [if_neg fun hany => hc (any_iff_carries.mp hany)]
    simp only [braceDepths, hdepths, zip_depthsFrom hdepths, (findEntry_eq_none_iff_noWindow hbal).mpr hw]
  | noReturn hc hu hw hr =>
    have hbal := not_unbalanced_iff.mp hu
    obtain ⟨depths, hdepths⟩ := exists_depths_iff.mpr hbal
    obtain ⟨before, w, rest, body, hwindow, hleast, hbody, hreturns⟩ := hr
    have hentry := (findEntry_eq_some_iff hbal).mpr ⟨before, w, rest,
      (firstHeading_iff hbal).mpr ⟨hwindow, hleast⟩, rfl⟩
    rw [if_neg fun hany => hc (any_iff_carries.mp hany)]
    simp only [braceDepths, hdepths, zip_depthsFrom hdepths, hentry, blockBody_eq_some_iff.mpr hbody,
      Option.getD_some, hreturns, List.isEmpty_nil, if_true]

theorem wrap_eq_iff {source : String} {note : Note} :
    wrap source = ⟨source, note⟩ ↔ planOf source = .error note := by
  refine ⟨fun h => ?_, wrap_of_error⟩
  cases hplan : planOf source with
  | error note' =>
    rw [wrap_of_error hplan] at h
    rw [(Wrapped.mk.inj h).2]
  | ok p => exact absurd (by rw [h]) (source_ne_iff.mpr ⟨p, hplan⟩)

/-- The pass makes no error, and it leaves a source as it is for one of the four reasons only, the
first of which it tells. -/
theorem wrap_fails_soft (source : String) :
    numberedWrap source = .ok (wrap source) ∧
      ((wrap source).source = source ↔
        Carries (significant (tokenize source)) ∨ Unbalanced (significant (tokenize source)) ∨
          NoWindow (significant (tokenize source)) ∨ NoReturn (significant (tokenize source))) ∧
      ∀ note, wrap source = ⟨source, note⟩ ↔ Refused (significant (tokenize source)) note := by
  have hnote : ∀ note, wrap source = ⟨source, note⟩ ↔ Refused (significant (tokenize source)) note := fun _ =>
    wrap_eq_iff.trans ⟨refused_of_planOf, planOf_of_refused⟩
  refine ⟨numberedWrap_eq source, ?_, hnote⟩
  rw [← exists_refused_iff]
  constructor
  · intro h
    refine ⟨(wrap source).note, (hnote _).mp ?_⟩
    cases hwrap : wrap source with
    | mk made note =>
      rw [hwrap] at h
      obtain rfl : made = source := h
      rfl
  · intro h
    obtain ⟨note, h⟩ := h
    rw [(hnote note).mpr h]

end ShaderLoom.Morph
