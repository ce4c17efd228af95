/-
  ShaderLoom.Proofs.Morph.Returns — the returns of a body that have an alpha.

  `level` counts opening less closing brackets. A bracketed row is the one that the next closing
  bracket at its level ends (`bracketed_spec`), and its last argument is what follows the last
  comma at that level (`afterLastComma_spec`). So each site that `returns` finds is the last
  argument of a `return T( … , argument );` (`ReturnsAt`), and the sites stand in the body one
  after another without sharing a token (`returns_split`).
-/

import ShaderLoom.Morph.Site

namespace ShaderLoom.Morph

/-! ## Brackets -/

/-- Opening less closing brackets. -/
def level (ts : List Token) : Int := ts.countP opensBracket - ts.countP closesBracket

theorem opens_xor_closes (t : Token) : opensBracket t = true → closesBracket t = false := by
  intro h
  simp only [opensBracket, Bool.or_eq_true, beq_iff_eq] at h
  rcases h with h | h <;> simp [closesBracket, h]

@[simp] theorem level_nil : level [] = 0 := rfl

theorem level_cons (t : Token) (ts : List Token) :
    level (t :: ts) = (if opensBracket t then 1 else if closesBracket t then -1 else 0) + level ts := by
  have hx := opens_xor_closes t
  simp only [level, List.countP_cons]
  cases ho : opensBracket t <;> cases hc : closesBracket t <;> simp_all <;> omega

/-- No bracket closes that is not opened in the row, and all are closed. -/
def Nested (ts : List Token) : Prop := (∀ p, p <+: ts → 0 ≤ level p) ∧ level ts = 0

theorem prefix_cons {d : Int} {t : Token} {ts : List Token} (hd : 0 ≤ d) {s : Int}
    (hs : s = if opensBracket t then 1 else if closesBracket t then -1 else 0)
    (h : ∀ p, p <+: ts → 0 ≤ d + s + level p) : ∀ p, p <+: t :: ts → 0 ≤ d + level p := by
  intro p hp
  cases p with
  | nil => simpa using hd
  | cons u p =>
    obtain ⟨rfl, hrest⟩ := List.cons_prefix_cons.mp hp
    have := h p hrest
    rw [level_cons, ← hs]
    omega

theorem bracketed_spec {d : Nat} {ts inside after : List Token} (h : bracketed d ts = some (inside, after)) :
    ∃ closing, ts = inside ++ closing :: after ∧ closesBracket closing = true ∧
      (∀ p, p <+: inside → 0 ≤ (d : Int) + level p) ∧ (d : Int) + level inside = 0 := by
  induction ts generalizing d inside with
  | nil => simp [bracketed] at h
  | cons t ts ih =>
    have step : ∀ e : Nat, (bracketed e ts).map (fun p => (t :: p.1, p.2)) = some (inside, after) →
        (e : Int) = d + (if opensBracket t then 1 else if closesBracket t then -1 else 0) →
        ∃ closing, t :: ts = inside ++ closing :: after ∧ closesBracket closing = true ∧
          (∀ p, p <+: inside → 0 ≤ (d : Int) + level p) ∧ (d : Int) + level inside = 0 := by
      intro e he hlevel
      obtain ⟨⟨a, b⟩, hab, heq⟩ := Option.map_eq_some_iff.mp he
      obtain ⟨rfl, rfl⟩ := Prod.mk.inj heq
      obtain ⟨closing, rfl, hclosing, hpre, htotal⟩ := ih hab
      refine ⟨closing, rfl, hclosing, prefix_cons (Int.natCast_nonneg d) rfl fun p hp => ?_, ?_⟩
      · rw [← hlevel]
        exact hpre p hp
      · show (d : Int) + level (t :: a) = 0
        rw [level_cons]
        omega
    unfold bracketed at h
    split at h
    · rename_i ho
      exact step _ h (by simp [ho])
    · rename_i ho
      split at h
      · rename_i hc
        cases d with
        | zero =>
          obtain ⟨rfl, rfl⟩ := Prod.mk.inj (Option.some.inj h)
          exact ⟨t, rfl, hc, fun p hp => by simp [List.prefix_nil.mp hp], rfl⟩
        | succ d => exact step _ h (by rw [if_neg ho, if_pos hc]; omega)
      · rename_i hc
        exact step _ h (by simp [ho, hc])

theorem comma_no_bracket {t : Token} (h : t.text = ",") :
    opensBracket t = false ∧ closesBracket t = false := by
  simp [opensBracket, closesBracket, h]

/-- No comma of the row lies in no bracket, with `d` brackets open before it. -/
def NoComma (d : Int) (ts : List Token) : Prop := ∀ x c y, ts = x ++ c :: y → c.text = "," → d + level x ≠ 0

theorem NoComma.cons {d s : Int} {t : Token} {ts : List Token} (h : NoComma (d + s) ts)
    (hs : s = if opensBracket t then 1 else if closesBracket t then -1 else 0) (ht : t.text = "," → d ≠ 0) :
    NoComma d (t :: ts) := by
  intro x c y hcut hc
  cases x with
  | nil =>
    obtain ⟨rfl, rfl⟩ := List.cons.inj hcut
    simpa using ht hc
  | cons u x =>
    obtain ⟨rfl, rfl⟩ := List.cons.inj hcut
    have := h x c y rfl hc
    rw [level_cons, ← hs]
    omega

/-- The depth of the scan does not stop at zero where no bracket closes too much. -/
theorem exists_depth {d : Nat} {t : Token}
    (h : 0 ≤ (d : Int) + (if opensBracket t then 1 else if closesBracket t then -1 else 0)) :
    ∃ e : Nat, (if opensBracket t then d + 1 else if closesBracket t then d - 1 else d) = e ∧
      (e : Int) = d + (if opensBracket t then 1 else if closesBracket t then -1 else 0) := by
  refine ⟨_, rfl, ?_⟩
  split
  · simp
  · rename_i ho
    split
    · rename_i hc
      rw [if_neg ho, if_pos hc] at h
      omega
    · simp

/-- The row after the last comma that lies in no bracket, if there is such a comma. -/
theorem afterLastComma_spec {d : Nat} {ts : List Token} (hpre : ∀ p, p <+: ts → 0 ≤ (d : Int) + level p) :
    (∀ last, afterLastComma d ts = some last → ∃ others comma, ts = others ++ comma :: last ∧ comma.text = "," ∧
        (d : Int) + level others = 0 ∧ NoComma 0 last) ∧
      (afterLastComma d ts = none → NoComma d ts) := by
  induction ts generalizing d with
  | nil => exact ⟨by simp [afterLastComma], fun _ x c y h => by simp at h⟩
  | cons t ts ih =>
    have hone := hpre [t] (by simp [List.cons_prefix_cons])
    rw [level_cons, level_nil, Int.add_zero] at hone
    obtain ⟨e, he, hes⟩ := exists_depth hone
    generalize hs : (if opensBracket t then 1 else if closesBracket t then -1 else 0 : Int) = s at hes
    have hrest : ∀ p, p <+: ts → 0 ≤ (e : Int) + level p := by
      intro p hp
      have := hpre (t :: p) (List.cons_prefix_cons.mpr ⟨rfl, hp⟩)
      rw [level_cons, hs] at this
      omega
    obtain ⟨hsome, hnone⟩ := ih hrest
    rw [afterLastComma]
    simp only [he]
    cases hlast : afterLastComma e ts with
    | some last =>
      refine ⟨fun last' h => ?_, fun h => by cases h⟩
      obtain rfl := Option.some.inj h
      obtain ⟨others, comma, rfl, hcomma, hlevel, hno⟩ := hsome last hlast
      exact ⟨t :: others, comma, rfl, hcomma, by rw [level_cons, hs]; omega, hno⟩
    | none =>
      have hno := hnone hlast
      rw [hes] at hno
      constructor
      · intro last h
        simp only at h
        split at h
        · rename_i hc
          obtain rfl := Option.some.inj h
          obtain ⟨ho, hcl⟩ := comma_no_bracket hc.1
          obtain rfl : s = 0 := by rw [← hs]; simp [ho, hcl]
          refine ⟨[], t, rfl, hc.1, by simp [hc.2], ?_⟩
          simpa [hc.2] using hno
        · cases h
      · intro h
        simp only at h
        split at h
        · cases h
        · rename_i hc
          exact hno.cons hs.symm fun ht h0 => hc ⟨ht, by omega⟩

/-! ## Sites -/

/-- The last argument of a return: what is before it in the body and what is behind it. -/
def ReturnsAt (pre : List Token) (site : AlphaSite) (post : List Token) : Prop :=
  ∃ lead ret vector opening others comma closing semicolon rest,
    pre = lead ++ (ret :: vector :: opening :: (others ++ [comma])) ∧ post = closing :: semicolon :: rest ∧
      ret.text = "return" ∧ vector.text = site.vector ∧ site.vector ∈ vectorTypes ∧ opening.text = "(" ∧
      comma.text = "," ∧ closesBracket closing = true ∧ semicolon.text = ";" ∧ site.argument ≠ [] ∧
      Nested (others ++ comma :: site.argument) ∧ level others = 0 ∧ NoComma 0 site.argument

theorem ReturnsAt.prepend {pre post : List Token} {site : AlphaSite} (h : ReturnsAt pre site post)
    (lead : List Token) :
    ReturnsAt (lead ++ pre) site post := by
  obtain ⟨lead', ret, vector, opening, others, comma, closing, semicolon, rest, rfl, h⟩ := h
  exact ⟨lead ++ lead', ret, vector, opening, others, comma, closing, semicolon, rest, by simp, h⟩

/-- Sites that stand in a body one after another, each where a return has its last argument. -/
def Split (body : List Token) : List AlphaSite → Prop
  | [] => True
  | site :: sites => ∃ pre post, body = pre ++ (site.argument ++ post) ∧ ReturnsAt pre site post ∧
    Split post sites

theorem Split.prepend {body : List Token} {sites : List AlphaSite} (h : Split body sites)
    (lead : List Token) :
    Split (lead ++ body) sites := by
  cases sites with
  | nil => trivial
  | cons site sites =>
    obtain ⟨pre, post, rfl, hat, hrest⟩ := h
    exact ⟨lead ++ pre, post, by simp, hat.prepend lead, hrest⟩

theorem Split.of_mem {body : List Token} {sites : List AlphaSite} (h : Split body sites) {site : AlphaSite}
    (hsite : site ∈ sites) : ∃ pre post, body = pre ++ (site.argument ++ post) ∧
      ReturnsAt pre site post := by
  induction sites generalizing body with
  | nil => simp at hsite
  | cons s sites ih =>
    obtain ⟨pre, post, rfl, hat, hrest⟩ := h
    rcases List.mem_cons.mp hsite with rfl | hsite
    · exact ⟨pre, post, rfl, hat⟩
    · obtain ⟨pre', post', rfl, hat'⟩ := ih hrest hsite
      exact ⟨pre ++ (s.argument ++ pre'), post', by simp, by simpa using hat'.prepend (pre ++ s.argument)⟩

theorem alphaSite?_spec {vector : String} {inside after : List Token} {site : AlphaSite}
    (hnested : Nested inside) (h : alphaSite? vector inside after = some site) :
    ∃ others comma semicolon rest, inside = others ++ comma :: site.argument ∧ after = semicolon :: rest ∧
      site.vector = vector ∧ comma.text = "," ∧ semicolon.text = ";" ∧ site.argument ≠ [] ∧
        level others = 0 ∧ NoComma 0 site.argument := by
  unfold alphaSite? at h
  split at h
  · rename_i t argument semicolon rest hlast
    split at h
    · rename_i hsemicolon
      obtain rfl := Option.some.inj h
      obtain ⟨others, comma, hcut, hcomma, hlevel, hno⟩ :=
        (afterLastComma_spec (d := 0) (by simpa using hnested.1)).1 _ hlast
      exact ⟨others, comma, semicolon, rest, hcut, rfl, rfl, hcomma, hsemicolon, by simp,
        by simpa using hlevel, hno⟩
    · cases h
  · cases h

theorem returns_of_unclosed {ret vector opening : Token} {rest : List Token}
    (hhead : ret.text = "return" ∧ vectorTypes.contains vector.text ∧ opening.text = "(")
    (hnone : bracketed 0 rest = none) : returns (ret :: vector :: opening :: rest) = [] := by
  rw [returns, if_pos hhead]
  split
  · rfl
  · rename_i heq
    rw [hnone] at heq
    cases heq

theorem returns_of_closed {ret vector opening : Token} {rest inside after : List Token}
    (hhead : ret.text = "return" ∧ vectorTypes.contains vector.text ∧ opening.text = "(")
    (hsome : bracketed 0 rest = some (inside, after)) :
    returns (ret :: vector :: opening :: rest) =
      (alphaSite? vector.text inside after).toList ++ returns after := by
  rw [returns, if_pos hhead]
  split
  · rename_i heq
    rw [hsome] at heq
    cases heq
  · rename_i inside' after' heq
    rw [hsome] at heq
    obtain ⟨rfl, rfl⟩ := Prod.mk.inj (Option.some.inj heq)
    rfl

theorem returns_split (body : List Token) : Split body (returns body) := by
  induction body using returns.induct with
  | case1 ret vector opening rest hhead hnone =>
    rw [returns_of_unclosed hhead hnone]
    trivial
  | case2 ret vector opening rest hhead inside after hsome ih =>
    rw [returns_of_closed hhead hsome]
    obtain ⟨closing, rfl, hclosing, hpre, hlevel⟩ := bracketed_spec hsome
    have hnested : Nested inside := ⟨by simpa using hpre, by simpa using hlevel⟩
    cases hsite : alphaSite? vector.text inside after with
    | none => simpa using ih.prepend (ret :: vector :: opening :: (inside ++ [closing]))
    | some site =>
      obtain ⟨others, comma, semicolon, rest, rfl, rfl, hvector, hcomma, hsemicolon, hne, hothers, hno⟩ :=
        alphaSite?_spec hnested hsite
      refine ⟨ret :: vector :: opening :: (others ++ [comma]), closing :: semicolon :: rest, by simp,
        ⟨[], ret, vector, opening, others, comma, closing, semicolon, rest, rfl, rfl, hhead.1,
          hvector.symm, ?_, hhead.2.2, hcomma, hclosing, hsemicolon, hne, hnested, hothers, hno⟩,
            ih.prepend [closing]⟩
      rw [hvector]
      exact List.contains_iff_mem.mp hhead.2.1
  | case3 ret vector opening rest hhead ih =>
    rw [returns, if_neg hhead]
    exact ih.prepend [ret]
  | case4 body hshort =>
    rw [returns]
    · trivial
    · exact hshort

end ShaderLoom.Morph
