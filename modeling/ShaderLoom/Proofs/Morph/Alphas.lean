/-
  ShaderLoom.Proofs.Morph.Alphas — which returns of a body have their alpha edited, and where.

  A call is closed by the bracket that matches its own (`bracketed_eq_some`, `exists_bracketed`), and
  its last argument is the one behind the last comma that is in no other bracket
  (`afterLastComma_eq_some`). In a body whose brackets are nested and whose returns stand in none,
  the scan passes over every place where an alpha stands and stops at no other (`exactly_returns`):
  what it jumps over is one call, in which nothing returns. The edits follow each other in the text,
  and each is over the tokens of its argument and touches no other (`returns_edited`).
-/

import Mathlib.Data.List.Forall2
import Mathlib.Data.List.Infix
import ShaderLoom.Proofs.Morph.Returns
import ShaderLoom.Proofs.Token.Ordered
import ShaderLoom.Morph.Wrap

namespace ShaderLoom.Morph

open ShaderLoom.Token

/-! ## Brackets that match -/

theorem level_append (p q : List Token) : level (p ++ q) = level p + level q := by
  simp only [level, List.countP_append]
  omega

theorem not_opens_of_closes {t : Token} (h : closesBracket t = true) : opensBracket t = false := by
  cases ho : opensBracket t with
  | false => rfl
  | true =>
    rw [opens_xor_closes t ho] at h
    cases h

/-- The bracket that closes a row at its level is found. -/
theorem bracketed_eq_some {d : Nat} {inside after : List Token} {closing : Token} (hclosing : closesBracket closing = true)
    (hpre : ∀ p, p <+: inside → 0 ≤ (d : Int) + level p) (hlevel : (d : Int) + level inside = 0) :
    bracketed d (inside ++ closing :: after) = some (inside, after) := by
  induction inside generalizing d with
  | nil =>
    obtain rfl : d = 0 := by
      rw [level_nil] at hlevel
      omega
    rw [List.nil_append, bracketed, if_neg (by simp [not_opens_of_closes hclosing]), if_pos hclosing]
  | cons t inside ih =>
    have step : ∀ e : Nat, (e : Int) = d + (if opensBracket t then 1 else if closesBracket t then -1 else 0) →
        bracketed e (inside ++ closing :: after) = some (inside, after) := by
      intro e he
      refine ih (fun p hp => ?_) ?_
      · have := hpre (t :: p) (List.cons_prefix_cons.mpr ⟨rfl, hp⟩)
        rw [level_cons] at this
        omega
      · rw [level_cons] at hlevel
        omega
    have hone := hpre [t] (List.cons_prefix_cons.mpr ⟨rfl, List.nil_prefix⟩)
    rw [level_cons, level_nil] at hone
    rw [List.cons_append]
    unfold bracketed
    split
    · rename_i ho
      rw [step (d + 1) (by simp [ho])]
      rfl
    · rename_i ho
      split
      · rename_i hc
        rw [if_neg ho, if_pos hc] at hone
        cases d with
        | zero => omega
        | succ d =>
          simp only
          rw [step d (by rw [if_neg ho, if_pos hc]; omega)]
          rfl
      · rename_i hc
        rw [step d (by simp [ho, hc])]
        rfl

theorem bracketed_of_nested {inside : List Token} {closing : Token} (hnested : Nested inside)
    (hclosing : closesBracket closing = true) (after : List Token) :
    bracketed 0 (inside ++ closing :: after) = some (inside, after) :=
  bracketed_eq_some hclosing (by simpa using hnested.1) (by simpa using hnested.2)

/-- A row that closes more than it opens has the bracket that closes it. -/
theorem exists_bracketed {d : Nat} {ts p : List Token} (hp : p <+: ts) (h : (d : Int) + level p < 0) :
    ∃ inside after, bracketed d ts = some (inside, after) := by
  induction ts generalizing d p with
  | nil =>
    rw [List.prefix_nil.mp hp, level_nil] at h
    omega
  | cons t ts ih =>
    cases p with
    | nil =>
      rw [level_nil] at h
      omega
    | cons u p =>
      obtain ⟨rfl, hprefix⟩ := List.cons_prefix_cons.mp hp
      rw [level_cons] at h
      have step : ∀ e : Nat, (e : Int) + level p < 0 →
          ∃ inside after, (bracketed e ts).map (fun q => (u :: q.1, q.2)) = some (inside, after) := by
        intro e he
        obtain ⟨inside, after, hsome⟩ := ih hprefix he
        exact ⟨u :: inside, after, by rw [hsome]; rfl⟩
      unfold bracketed
      split
      · rename_i ho
        rw [if_pos ho] at h
        exact step (d + 1) (by omega)
      · rename_i ho
        rw [if_neg ho] at h
        split
        · rename_i hc
          rw [if_pos hc] at h
          cases d with
          | zero => exact ⟨[], ts, rfl⟩
          | succ d => exact step d (by omega)
        · rename_i hc
          rw [if_neg hc] at h
          exact step d (by omega)

/-! ## The last argument -/

/-- The argument behind the last comma that is in no bracket of a row. -/
def LastArgument (inside argument : List Token) : Prop :=
  ∃ others comma, inside = others ++ comma :: argument ∧ comma.text = "," ∧ level others = 0 ∧
    NoComma 0 argument ∧ argument ≠ []

theorem level_comma {t : Token} (h : t.text = ",") (ts : List Token) : level (t :: ts) = level ts := by
  obtain ⟨ho, hc⟩ := comma_no_bracket h
  rw [level_cons]
  simp [ho, hc]

/-- There is one last comma. -/
theorem lastComma_unique {others others' argument argument' : List Token} {comma comma' : Token}
    (heq : others ++ comma :: argument = others' ++ comma' :: argument') (hcomma : comma.text = ",")
    (hcomma' : comma'.text = ",") (hlevel : level others = level others') (hno : NoComma 0 argument)
    (hno' : NoComma 0 argument') : argument = argument' := by
  -- a comma further back would lie in the other argument, in no bracket
  have hlater : ∀ {a z b y : List Token} {c e : Token}, c.text = "," → level (a ++ c :: z) = level a →
      NoComma 0 b → b = z ++ e :: y → e.text = "," → False := by
    intro a z b y c e hc hl hn hb he
    rw [level_append, level_comma hc] at hl
    exact hn z e y hb he (by omega)
  rcases List.append_eq_append_iff.mp heq with ⟨z, rfl, hz⟩ | ⟨z, rfl, hz⟩
  · cases z with
    | nil => exact (List.cons.inj hz).2
    | cons c z =>
      obtain ⟨rfl, hargument⟩ := List.cons.inj hz
      exact (hlater hcomma hlevel.symm hno hargument hcomma').elim
  · cases z with
    | nil => exact (List.cons.inj hz).2.symm
    | cons c z =>
      obtain ⟨rfl, hargument⟩ := List.cons.inj hz
      exact (hlater hcomma' hlevel hno' hargument hcomma).elim

theorem afterLastComma_eq_some {inside others argument : List Token} {comma : Token} (hnested : Nested inside)
    (hinside : inside = others ++ comma :: argument) (hcomma : comma.text = ",") (hlevel : level others = 0)
    (hno : NoComma 0 argument) : afterLastComma 0 inside = some argument := by
  have hpre : ∀ p, p <+: inside → 0 ≤ ((0 : Nat) : Int) + level p := by simpa using hnested.1
  obtain ⟨hsome, hnone⟩ := afterLastComma_spec hpre
  cases hlast : afterLastComma 0 inside with
  | none => exact absurd (by simpa using hlevel) (hnone hlast others comma argument hinside hcomma)
  | some last =>
    obtain ⟨others', comma', hinside', hcomma', hlevel', hno'⟩ := hsome last hlast
    have hlevels : level others' = level others := by
      rw [hlevel]
      simpa using hlevel'
    rw [lastComma_unique (hinside'.symm.trans hinside) hcomma' hcomma hlevels hno' hno]

theorem alphaSite?_eq_some_iff {vector : String} {inside after : List Token} {site : AlphaSite} (hnested : Nested inside) :
    alphaSite? vector inside after = some site ↔ site.vector = vector ∧ LastArgument inside site.argument ∧
      ∃ semicolon rest, after = semicolon :: rest ∧ semicolon.text = ";" := by
  constructor
  · intro h
    obtain ⟨others, comma, semicolon, rest, hinside, hafter, hvector, hcomma, hsemicolon, hne, hlevel, hno⟩ :=
      alphaSite?_spec hnested h
    exact ⟨hvector, ⟨others, comma, hinside, hcomma, hlevel, hno, hne⟩, semicolon, rest, hafter, hsemicolon⟩
  · rintro ⟨hvector, ⟨others, comma, hinside, hcomma, hlevel, hno, hne⟩, semicolon, rest, rfl, hsemicolon⟩
    obtain ⟨t, argument, hargument⟩ := List.exists_cons_of_ne_nil hne
    have hlast := afterLastComma_eq_some hnested hinside hcomma hlevel hno
    unfold alphaSite?
    rw [hlast, hargument]
    simp only [if_pos hsemicolon, ← hvector, ← hargument]

/-! ## Where alphas stand -/

/-- `return T( inside )` with a vector `T` at the front of a row, its bracket closed by the one that
matches it. -/
def Call (vector : String) (inside after ts : List Token) : Prop :=
  ∃ ret type opening closing, ts = ret :: type :: opening :: (inside ++ closing :: after) ∧ ret.text = "return" ∧
    type.text = vector ∧ vector ∈ vectorTypes ∧ opening.text = "(" ∧ Nested inside ∧ closesBracket closing = true

/-- A return at a position of a body whose call has a last argument and a semicolon behind it. -/
def SiteAt (body : List Token) (i : Nat) (site : AlphaSite) : Prop :=
  ∃ inside semicolon rest, Call site.vector inside (semicolon :: rest) (body.drop i) ∧ semicolon.text = ";" ∧
    LastArgument inside site.argument

/-- The positions of a body where an alpha stands, in order, and the sites there. -/
structure Exactly (body : List Token) (positions : List Nat) (sites : List AlphaSite) : Prop where
  ordered : positions.Pairwise (· < ·)
  covers : ∀ i, i ∈ positions ↔ ∃ site, SiteAt body i site
  sites : List.Forall₂ (SiteAt body) positions sites

section Sites

variable {body lead ts : List Token} {i : Nat} {site : AlphaSite} {positions : List Nat} {sites : List AlphaSite}

/-- An alpha stands behind the heading of a return. -/
theorem SiteAt.exists_heading (h : SiteAt body i site) : ∃ ret type opening rest,
    body.drop i = ret :: type :: opening :: rest ∧ ret.text = "return" ∧ vectorTypes.contains type.text ∧
      opening.text = "(" := by
  obtain ⟨inside, semicolon, rest, ⟨ret, type, opening, closing, hdrop, hret, htype, hvector, hopening, -⟩, -⟩ := h
  exact ⟨ret, type, opening, _, hdrop, hret, List.contains_iff_mem.mpr (htype ▸ hvector), hopening⟩

theorem siteAt_behind : SiteAt (lead ++ ts) (lead.length + i) site ↔ SiteAt ts i site := by
  simp only [SiteAt, List.drop_length_add_append]

/-- No alpha stands at a token that is no `return`. -/
theorem not_siteAt_of_lead (hlead : ∀ t ∈ lead, t.text ≠ "return") (hi : i < lead.length) : ¬SiteAt (lead ++ ts) i site := by
  intro h
  obtain ⟨ret, type, opening, rest, hdrop, hret, -⟩ := h.exists_heading
  rw [List.drop_append_of_le_length (Nat.le_of_lt hi), List.drop_eq_getElem_cons hi] at hdrop
  obtain ⟨rfl, -⟩ := List.cons.inj hdrop
  exact hlead _ (List.getElem_mem hi) hret

/-- Nor behind the first token of a stretch in which no other is a `return`. -/
theorem not_siteAt_of_tail {ret : Token} (hlead : ∀ t ∈ lead, t.text ≠ "return") (hpos : 0 < i)
    (hi : i < (ret :: lead).length) : ¬SiteAt (ret :: lead ++ ts) i site := by
  obtain ⟨j, rfl⟩ : ∃ j, i = [ret].length + j := ⟨i - 1, by rw [List.length_singleton]; omega⟩
  intro h
  have hat : SiteAt ([ret] ++ (lead ++ ts)) ([ret].length + j) site := h
  simp only [List.length_cons, List.length_nil] at hi
  exact not_siteAt_of_lead hlead (by omega) (siteAt_behind.mp hat)

theorem mem_behind (h : Exactly ts positions sites) :
    i ∈ positions.map (lead.length + ·) ↔ lead.length ≤ i ∧ ∃ site, SiteAt (lead ++ ts) i site := by
  rw [List.mem_map]
  constructor
  · rintro ⟨j, hj, rfl⟩
    obtain ⟨site, hsite⟩ := (h.covers j).mp hj
    exact ⟨Nat.le_add_right _ _, site, siteAt_behind.mpr hsite⟩
  · rintro ⟨hi, site, hsite⟩
    obtain ⟨j, rfl⟩ : ∃ j, i = lead.length + j := ⟨i - lead.length, by omega⟩
    exact ⟨j, (h.covers j).mpr ⟨site, siteAt_behind.mp hsite⟩, rfl⟩

/-- A stretch without alphas before a row. -/
theorem Exactly.behind (h : Exactly ts positions sites) (hnone : ∀ i < lead.length, ∀ site, ¬SiteAt (lead ++ ts) i site) :
    Exactly (lead ++ ts) (positions.map (lead.length + ·)) sites where
  ordered := by
    rw [List.pairwise_map]
    exact h.ordered.imp fun hlt => Nat.add_lt_add_left hlt _
  covers := by
    intro i
    rw [mem_behind h]
    constructor
    · exact fun hi => hi.2
    · rintro ⟨site, hsite⟩
      exact ⟨Nat.le_of_not_lt fun hi => hnone i hi site hsite, site, hsite⟩
  sites := by
    rw [List.forall₂_map_left_iff]
    exact h.sites.imp fun _ _ hsite => siteAt_behind.mpr hsite

/-- A stretch with one alpha, of the return it starts with, before a row. -/
theorem Exactly.first (h : Exactly ts positions sites) (hpos : 0 < lead.length) (hsite : SiteAt (lead ++ ts) 0 site)
    (hnone : ∀ i, 0 < i → i < lead.length → ∀ site, ¬SiteAt (lead ++ ts) i site) :
    Exactly (lead ++ ts) (0 :: positions.map (lead.length + ·)) (site :: sites) where
  ordered := by
    rw [List.pairwise_cons, List.pairwise_map]
    refine ⟨fun i hi => ?_, h.ordered.imp fun hlt => Nat.add_lt_add_left hlt _⟩
    have := ((mem_behind h).mp hi).1
    omega
  covers := by
    intro i
    rw [List.mem_cons, mem_behind h]
    constructor
    · rintro (rfl | hi)
      · exact ⟨site, hsite⟩
      · exact hi.2
    · rintro ⟨site', hsite'⟩
      by_cases hi : i = 0
      · exact Or.inl hi
      · refine Or.inr ⟨Nat.le_of_not_lt fun hlt => ?_, site', hsite'⟩
        exact hnone i (Nat.pos_of_ne_zero hi) hlt site' hsite'
  sites := by
    refine .cons hsite ?_
    rw [List.forall₂_map_left_iff]
    exact h.sites.imp fun _ _ hsite => siteAt_behind.mpr hsite

end Sites

/-! ## The scan -/

/-- A row read with `d` brackets open: none closes that is not open, all are closed at its end, and
no `return` stands in one. -/
structure Tidy (d : Nat) (ts : List Token) : Prop where
  within : ∀ p, p <+: ts → 0 ≤ (d : Int) + level p
  closed : (d : Int) + level ts = 0
  returns : ∀ p t q, ts = p ++ t :: q → t.text = "return" → (d : Int) + level p = 0

theorem Tidy.behind {d : Nat} {lead ts : List Token} (h : Tidy d (lead ++ ts)) :
    ∃ e : Nat, (e : Int) = d + level lead ∧ Tidy e ts := by
  have hlead := h.within lead (List.prefix_append lead ts)
  obtain ⟨e, he⟩ := Int.eq_ofNat_of_zero_le hlead
  refine ⟨e, he.symm, fun p hp => ?_, ?_, fun p t q hcut hret => ?_⟩
  · have := h.within (lead ++ p) ((List.prefix_append_right_inj lead).mpr hp)
    rw [level_append] at this
    omega
  · have := h.closed
    rw [level_append] at this
    omega
  · have := h.returns (lead ++ p) t q (by rw [hcut, List.append_assoc]) hret
    rw [level_append] at this
    omega

section Heading

variable {ret type opening : Token} {rest inside after : List Token} {site : AlphaSite} {d : Nat}
variable (hhead : ret.text = "return" ∧ vectorTypes.contains type.text ∧ opening.text = "(")

include hhead

theorem level_heading (ts : List Token) : level (ret :: type :: opening :: ts) = 1 + level ts := by
  obtain ⟨hret, htype, hopening⟩ := hhead
  have htypes : ∀ s ∈ vectorTypes, s ≠ "(" ∧ s ≠ "[" ∧ s ≠ ")" ∧ s ≠ "]" := by decide
  obtain ⟨h1, h2, h3, h4⟩ := htypes _ (List.contains_iff_mem.mp htype)
  rw [level_cons, level_cons, level_cons]
  simp [opensBracket, closesBracket, hret, hopening, h1, h2, h3, h4]

/-- Where brackets are nested, the call of a return is closed. -/
theorem exists_call (h : Tidy d (ret :: type :: opening :: rest)) :
    ∃ inside after, bracketed 0 rest = some (inside, after) ∧
      Call type.text inside after (ret :: type :: opening :: rest) := by
  have hdepth := h.returns [] ret _ rfl hhead.1
  have hclosed := h.closed
  rw [level_nil] at hdepth
  rw [level_heading hhead] at hclosed
  obtain ⟨inside, after, hsome⟩ := exists_bracketed (d := 0) List.prefix_rfl (by omega : ((0 : Nat) : Int) + level rest < 0)
  obtain ⟨closing, rfl, hclosing, hpre, hlevel⟩ := bracketed_spec hsome
  refine ⟨inside, after, hsome, ret, type, opening, closing, rfl, hhead.1, rfl, List.contains_iff_mem.mp hhead.2.1,
    hhead.2.2, ⟨by simpa using hpre, by simpa using hlevel⟩, hclosing⟩

theorem siteAt_zero_iff {closing : Token} (hnested : Nested inside) (hclosing : closesBracket closing = true) :
    SiteAt (ret :: type :: opening :: (inside ++ closing :: after)) 0 site ↔
      alphaSite? type.text inside after = some site := by
  rw [alphaSite?_eq_some_iff hnested]
  constructor
  · rintro ⟨inside', semicolon, rest, ⟨ret', type', opening', closing', hcut, -, htype, -, -, hnested', hclosing'⟩,
      hsemicolon, hlast⟩
    simp only [List.drop_zero, List.cons.injEq] at hcut
    obtain ⟨-, rfl, -, hcut⟩ := hcut
    have hfound := bracketed_of_nested hnested hclosing after
    rw [hcut, bracketed_of_nested hnested' hclosing', Option.some.injEq, Prod.mk.injEq] at hfound
    obtain ⟨rfl, rfl⟩ := hfound
    exact ⟨htype.symm, hlast, semicolon, rest, rfl, hsemicolon⟩
  · rintro ⟨hvector, hlast, semicolon, rest, rfl, hsemicolon⟩
    refine ⟨inside, semicolon, rest, ⟨ret, type, opening, closing, rfl, hhead.1, hvector.symm, ?_, hhead.2.2, hnested,
      hclosing⟩, hsemicolon, hlast⟩
    rw [hvector]
    exact List.contains_iff_mem.mp hhead.2.1

/-- Between a return and the end of its call nothing returns. -/
theorem no_return_of_call {closing : Token} (hnested : Nested inside) (hclosing : closesBracket closing = true)
    (h : Tidy d (ret :: type :: opening :: (inside ++ closing :: after))) :
    ∀ t ∈ type :: opening :: (inside ++ [closing]), t.text ≠ "return" := by
  have htypes : ∀ s ∈ vectorTypes, s ≠ "return" := by decide
  have hend : closing.text ≠ "return" := by
    intro heq
    simp [closesBracket, heq] at hclosing
  simp only [List.forall_mem_cons, List.forall_mem_append, List.not_mem_nil, false_implies, implies_true, and_true]
  refine ⟨htypes _ (List.contains_iff_mem.mp hhead.2.1), by simp [hhead.2.2], fun t ht hret => ?_, hend⟩
  obtain ⟨x, y, rfl⟩ := List.append_of_mem ht
  have hdepth := h.returns (ret :: type :: opening :: x) t (y ++ closing :: after) (by simp) hret
  have hwithin := hnested.1 x (List.prefix_append _ _)
  rw [level_heading hhead] at hdepth
  omega

end Heading

/-- The scan finds the alphas of a tidy row, all of them and in order. -/
theorem exactly_returns {d : Nat} {body : List Token} (h : Tidy d body) :
    ∃ positions, Exactly body positions (returns body) := by
  induction body using returns.induct generalizing d with
  | case1 ret type opening rest hhead hnone =>
    obtain ⟨inside, after, hsome, -⟩ := exists_call hhead h
    rw [hnone] at hsome
    cases hsome
  | case2 ret type opening rest hhead inside after hsome ih =>
    rw [returns_of_closed hhead hsome]
    obtain ⟨closing, rfl, hclosing, hpre, hlevel⟩ := bracketed_spec hsome
    have hnested : Nested inside := ⟨by simpa using hpre, by simpa using hlevel⟩
    have hzero : ∀ site, SiteAt (ret :: type :: opening :: (inside ++ closing :: after)) 0 site ↔
        alphaSite? type.text inside after = some site := fun _ => siteAt_zero_iff hhead hnested hclosing
    -- the scan goes on behind the stretch of the call, in which nothing else returns
    obtain ⟨lead, hlead⟩ : ∃ lead, lead = type :: opening :: (inside ++ [closing]) := ⟨_, rfl⟩
    have hquiet : ∀ t ∈ lead, t.text ≠ "return" := hlead ▸ no_return_of_call hhead hnested hclosing h
    have hcut : ret :: type :: opening :: (inside ++ closing :: after) = ret :: lead ++ after := by simp [hlead]
    rw [hcut] at h hzero ⊢
    obtain ⟨e, -, he⟩ := h.behind
    obtain ⟨positions, hexactly⟩ := ih he
    cases hsite : alphaSite? type.text inside after with
    | none =>
      refine ⟨_, hexactly.behind fun i hi site hat => ?_⟩
      rcases Nat.eq_zero_or_pos i with rfl | hpos
      · rw [hzero, hsite] at hat
        cases hat
      · exact not_siteAt_of_tail hquiet hpos hi hat
    | some site =>
      exact ⟨_, hexactly.first (Nat.succ_pos _) ((hzero site).mpr hsite) fun i hpos hi _ =>
        not_siteAt_of_tail hquiet hpos hi⟩
  | case3 ret type opening rest hhead ih =>
    rw [returns, if_neg hhead]
    have hrow : Tidy d ([ret] ++ type :: opening :: rest) := h
    obtain ⟨e, -, he⟩ := hrow.behind
    obtain ⟨positions, hexactly⟩ := ih he
    show ∃ positions, Exactly ([ret] ++ type :: opening :: rest) positions _
    refine ⟨_, hexactly.behind fun i hi site hsite => ?_⟩
    obtain rfl : i = 0 := Nat.lt_one_iff.mp hi
    obtain ⟨ret', type', opening', rest', hdrop, hheading⟩ := hsite.exists_heading
    cases hdrop
    exact hhead hheading
  | case4 body hshort =>
    have hnone : returns body = [] := by rw [returns]; exact hshort
    rw [hnone]
    refine ⟨[], .nil, fun i => ⟨fun hi => absurd hi List.not_mem_nil, ?_⟩, .nil⟩
    rintro ⟨site, hsite⟩
    obtain ⟨ret, type, opening, rest, hdrop, -⟩ := hsite.exists_heading
    have hlength : 3 ≤ body.length := by
      have := congrArg List.length hdrop
      simp only [List.length_drop, List.length_cons] at this
      omega
    obtain ⟨a, b, c, more, hbody⟩ : ∃ a b c more, body = a :: b :: c :: more := by
      rcases body with _ | ⟨a, _ | ⟨b, _ | ⟨c, more⟩⟩⟩
      · simp at hlength
      · simp at hlength
      · simp at hlength
      · exact ⟨a, b, c, more, rfl⟩
    exact (hshort a b c more hbody).elim

/-! ## The edits -/

theorem argument_ne_nil {body : List Token} {sites : List AlphaSite} (h : Split body sites) :
    ∀ site ∈ sites, site.argument ≠ [] := by
  intro site hsite
  obtain ⟨pre, post, -, hat⟩ := h.of_mem hsite
  obtain ⟨lead, ret, vector, opening, others, comma, closing, semicolon, rest, -, -, -, -, -, -, -, -, -, hne, -⟩ := hat
  exact hne

/-- Arguments that stand in a row one after another. -/
theorem pairwise_arguments {body : List Token} {sites : List AlphaSite} (hordered : Ordered body) (h : Split body sites) :
    sites.Pairwise fun site site' => ∀ t ∈ site.argument, ∀ u ∈ site'.argument, t.stop ≤ u.start := by
  induction sites generalizing body with
  | nil => exact .nil
  | cons site sites ih =>
    obtain ⟨pre, post, rfl, -, hrest⟩ := h
    have hbehind := hordered.sublist (List.sublist_append_right pre _)
    refine .cons (fun site' hsite' t ht u hu => ?_) (ih (hbehind.sublist (List.sublist_append_right _ _)) hrest)
    obtain ⟨pre', post', rfl, -⟩ := hrest.of_mem hsite'
    have hu : u ∈ pre' ++ (site'.argument ++ post') := List.mem_append_right _ (List.mem_append_left _ hu)
    exact (List.pairwise_append.mp hbehind.apart).2.2 t ht u hu

section Edits

variable (source : List Char) (parameter : String) {site : AlphaSite} (hne : site.argument ≠ [])

include hne

theorem alphaEdit_start : site.argument.head?.map (·.start) = some (alphaEdit source parameter site).start := by
  obtain ⟨t, rest, hcut⟩ := List.exists_cons_of_ne_nil hne
  simp [alphaEdit, hcut]

theorem alphaEdit_stop : site.argument.getLast?.map (·.stop) = some (alphaEdit source parameter site).stop := by
  obtain ⟨front, t, hcut⟩ := List.eq_nil_or_concat site.argument |>.resolve_left hne
  simp [alphaEdit, hcut]

end Edits

/-- In a body whose brackets are nested and whose returns stand in no bracket, the call of every
return is closed by its own bracket, there is one edit for each place where an alpha stands and no
other, and the edits follow one another, each over the tokens of its argument alone. -/
theorem returns_edited {source : String} {before body after : List Token} (parameter : String)
    (hbody : significant (tokenize source) = before ++ (body ++ after)) (hnested : Nested body)
    (hreturn : ∀ p t q, body = p ++ t :: q → t.text = "return" → level p = 0) :
    (∀ i ret type opening rest, body.drop i = ret :: type :: opening :: rest → ret.text = "return" →
      type.text ∈ vectorTypes → opening.text = "(" → ∃ inside behind, bracketed 0 rest = some (inside, behind) ∧
        Call type.text inside behind (body.drop i)) ∧
      (∃ positions, Exactly body positions (returns body)) ∧
      (∀ site ∈ returns body,
        Covers (significant (tokenize source)) (alphaEdit source.toList parameter site) site.argument) ∧
      ((returns body).map (alphaEdit source.toList parameter)).Pairwise fun e e' => e.stop ≤ e'.start := by
  have htidy : Tidy 0 body := ⟨by simpa using hnested.1, by simpa using hnested.2, by simpa using hreturn⟩
  have hsplit := returns_split body
  have hordered : Ordered (before ++ (body ++ after)) := hbody ▸ ordered_significant source
  refine ⟨fun i ret type opening rest hdrop hret htype hopening => ?_, exactly_returns htidy, fun site hsite => ?_, ?_⟩
  · have hrow : Tidy 0 (body.take i ++ body.drop i) := by rwa [List.take_append_drop]
    obtain ⟨e, -, he⟩ := hrow.behind
    rw [hdrop] at he ⊢
    exact exists_call ⟨hret, List.contains_iff_mem.mpr htype, hopening⟩ he
  · have hne := argument_ne_nil hsplit site hsite
    obtain ⟨pre, post, hcut, -⟩ := hsplit.of_mem hsite
    have htokens : before ++ (body ++ after) = (before ++ pre) ++ (site.argument ++ (post ++ after)) := by
      rw [hcut]
      simp only [List.append_assoc]
    rw [hbody, htokens]
    rw [htokens] at hordered
    exact covers_of_ordered hordered (alphaEdit_start _ _ hne) (alphaEdit_stop _ _ hne)
  · have hinner := hordered.sublist ((List.sublist_append_left body after).trans (List.sublist_append_right before _))
    rw [List.pairwise_map]
    refine (pairwise_arguments hinner hsplit).imp_of_mem fun {site site'} hsite hsite' hapart => ?_
    obtain ⟨t, ht, hstop⟩ := Option.map_eq_some_iff.mp
      (alphaEdit_stop source.toList parameter (argument_ne_nil hsplit site hsite))
    obtain ⟨u, hu, hstart⟩ := Option.map_eq_some_iff.mp
      (alphaEdit_start source.toList parameter (argument_ne_nil hsplit site' hsite'))
    rw [← hstop, ← hstart]
    exact hapart t (List.mem_of_getLast? ht) u (List.mem_of_mem_head? hu)

/-- Three returns beside brackets of both kinds, the second without a comma. -/
def threeReturns : String :=
  "if (p.x > a[0]) return float4(mix(b, c, 0.5), d[1]); q = half4(0.0); return half4(q); return half4(q, 1.0);"

instance (ts : List Token) : Decidable (Nested ts) :=
  decidable_of_iff ((∀ p ∈ ts.inits, 0 ≤ level p) ∧ level ts = 0)
    (and_congr_left' (forall_congr' fun p => imp_congr_left (List.mem_inits p ts)))

theorem threeReturns_edited :
    Nested (significant (tokenize threeReturns)) ∧
      (∀ p t q, significant (tokenize threeReturns) = p ++ t :: q → t.text = "return" → level p = 0) ∧
      ∃ positions, Exactly (significant (tokenize threeReturns)) positions (returns (significant (tokenize threeReturns))) ∧
        positions.length = 2 := by
  have hnested : Nested (significant (tokenize threeReturns)) := by decide +kernel
  have hall : ∀ i < (significant (tokenize threeReturns)).length,
      ((significant (tokenize threeReturns)).drop i).head?.map (·.text) = some "return" →
        level ((significant (tokenize threeReturns)).take i) = 0 := by
    decide +kernel
  have hreturn : ∀ p t q, significant (tokenize threeReturns) = p ++ t :: q → t.text = "return" → level p = 0 := by
    intro p t q hcut hret
    have := hall p.length (by simp [hcut]) (by simp [hcut, hret])
    rwa [hcut, List.take_left] at this
  have hbody : significant (tokenize threeReturns) = [] ++ (significant (tokenize threeReturns) ++ []) := by simp
  have hcount : (returns (significant (tokenize threeReturns))).length = 2 := by decide +kernel
  obtain ⟨-, ⟨positions, hexactly⟩, -⟩ := returns_edited "p" hbody hnested hreturn
  exact ⟨hnested, hreturn, positions, hexactly, hexactly.sites.length_eq.trans hcount⟩

end ShaderLoom.Morph
