/-
  ShaderLoom.Proofs.Morph.Loops — each loop over token numbers is a scan.

  A loop that stands at a number does what the scan of `Morph.Site` does on the tokens from there on,
  and makes no error: the brace of a balanced source is matched (`matchFrom_eq`), a call is closed
  behind its start (`callFrom_eq`), every window lies within the tokens (`entryFrom_eq`). So the
  pass by numbers is the pass, on every source (`numberedWrap_eq`).
-/

import ShaderLoom.Proofs.Morph.Numbered

namespace ShaderLoom.Morph

open ShaderLoom.Token

namespace Numbered

/-! ## At a number -/

section Drop

variable {α : Type} {l m r : List α} {a : α} {i : Nat}

theorem fetch_of_drop (h : l.drop i = a :: r) : fetch l i = .ok a := by
  have : l[i]? = some a := by
    rw [← Nat.add_zero i, ← List.getElem?_drop, h]
    rfl
  rw [fetch, this]

theorem lt_of_drop (h : l.drop i = a :: r) : i < l.length := by
  have := congrArg List.length h
  rw [List.length_drop, List.length_cons] at this
  omega

theorem drop_behind (h : l.drop i = m ++ r) : l.drop (i + m.length) = r := by
  rw [← List.drop_drop, h, List.drop_left]

theorem drop_next (h : l.drop i = a :: r) : l.drop (i + 1) = r := drop_behind (m := [a]) h

theorem slice_of_drop (h : l.drop i = m ++ r) : slice l i (i + m.length) = m := by
  rw [slice, List.drop_take, h, Nat.add_sub_cancel_left, List.take_left]

/-- The three tokens at the start of a return that is looked for. -/
theorem fetch_three {b c : α} (h : l.drop i = a :: b :: c :: r) :
    fetch l i = .ok a ∧ fetch l (i + 1) = .ok b ∧ fetch l (i + 2) = .ok c :=
  ⟨fetch_of_drop h, fetch_of_drop (drop_next h), fetch_of_drop (drop_next (drop_next h))⟩

end Drop

/-! ## Blocks -/

theorem matchFrom_eq (extra : Nat) {tokens rest : List Token} {i : Nat} (h : tokens.drop i = rest) :
    matchFrom tokens (extra + 1) i =
      match blockBody extra rest with
      | some body => .ok (i + body.length)
      | none => .error .unclosedBlock := by
  induction rest generalizing i extra with
  | nil =>
    rw [matchFrom, if_neg (Nat.not_lt.mpr (List.drop_eq_nil_iff.mp h))]
    rfl
  | cons t rest ih =>
    have hstep : ∀ e : Nat, matchFrom tokens (e + 1) (i + 1) =
        match (blockBody e rest).map (t :: ·) with
        | some body => .ok (i + body.length)
        | none => .error .unclosedBlock := by
      intro e
      rw [ih e (drop_next h)]
      cases blockBody e rest with
      | none => rfl
      | some body =>
        simp only [Option.map_some, List.length_cons]
        congr 1
        omega
    rw [matchFrom, if_pos (lt_of_drop h), fetch_of_drop h]
    unfold blockBody
    simp only [bind, Except.bind, pure, Except.pure]
    by_cases ho : t.text = "\x7b"
    · rw [if_pos ho, if_pos ho]
      exact hstep (extra + 1)
    · rw [if_neg ho, if_neg ho]
      by_cases hc : t.text = "\x7d"
      · rw [if_pos hc, if_pos hc]
        cases extra with
        | zero => rfl
        | succ e =>
          rw [if_neg (by omega), show ((e + 1 : Nat) : Int) + 1 - 1 = e + 1 by omega]
          exact hstep e
      · rw [if_neg hc, if_neg hc]
        exact hstep extra

/-- A brace is matched behind the body of the block that it opens. -/
theorem matchFrom_opening {tokens body rest : List Token} {opening : Token} {i : Nat}
    (h : tokens.drop i = opening :: rest) (hopening : opening.text = "\x7b") (hbody : blockBody 0 rest = some body) :
    matchFrom tokens 0 i = .ok (i + 1 + body.length) := by
  have hmatch := matchFrom_eq 0 (drop_next h)
  rw [hbody] at hmatch
  rw [matchFrom, if_pos (lt_of_drop h), fetch_of_drop h]
  simp only [bind, Except.bind, hopening, if_true]
  exact hmatch

/-! ## The entry point -/

theorem entryAt?_short {ps : List Placed} (h : ps.length ≤ 6) : entryAt? ps = none := by
  unfold entryAt?
  split
  · simp only [List.length_cons] at h
    omega
  · rfl

theorem findEntry_short {ps : List Placed} (h : ps.length ≤ 6) : findEntry ps = none := by
  induction ps with
  | nil => rfl
  | cons p ps ih =>
    rw [findEntry, entryAt?_short h, ih (Nat.le_of_succ_le h)]
    rfl

theorem entryAt?_before {ps : List Placed} {entry : Entry} (h : entryAt? ps = some entry) :
    entry.before = [] := by
  unfold entryAt? at h
  split at h
  · split at h
    · obtain rfl := Option.some.inj h
      rfl
    · cases h
  · cases h

/-- An entry point is read off the tokens at a number, or the next one is tried. -/
theorem entryFrom_step {tokens : List Token} {depths : List Nat} {ps : List Placed} {i : Nat}
    (hlen : 6 < ps.length)
    (ht : tokens.drop i = ps.map (·.1)) (hd : depths.drop i = ps.map (·.2)) :
    entryFrom tokens depths i =
      (entryAt? ps).elim (entryFrom tokens depths (i + 1)) fun e =>
        .ok (some (i, e.parameter, e.dialect)) := by
  rcases ps with _ | ⟨⟨a, depth⟩, _ | ⟨b, _ | ⟨c, _ | ⟨d, _ | ⟨e, _ | ⟨f, _ | ⟨g, rest⟩⟩⟩⟩⟩⟩⟩ <;>
    try (simp at hlen; done)
  have hi : i + 6 < tokens.length := by
    have := congrArg List.length ht
    simp only [List.length_drop, List.length_map, List.length_cons] at this
    omega
  have hwindow : slice tokens (i + 1) (i + 7) = [b.1, c.1, d.1, e.1, f.1, g.1] :=
    slice_of_drop (m := [b.1, c.1, d.1, e.1, f.1, g.1]) (drop_next ht)
  conv => lhs; unfold entryFrom
  rw [if_pos hi, fetch_of_drop hd, fetch_of_drop ht, hwindow]
  simp only [bind, Except.bind, pure, Except.pure, fetch, List.getElem?_cons_zero, List.getElem?_cons_succ]
  cases depth with
  | succ n =>
    rw [if_neg (by omega)]
    rfl
  | zero =>
    by_cases hvector : vectorTypes.contains a.text = true
    · rw [if_pos ⟨rfl, hvector⟩]
      by_cases hwords : b.1.text = "main" ∧ c.1.text = "(" ∧ pairTypes.contains d.1.text = true ∧
          e.1.kind = .name ∧ f.1.text = ")" ∧ g.1.text = "\x7b"
      · have hboth := And.intro hvector hwords
        rw [if_pos hwords, entryAt?, if_pos hboth]
        rfl
      · rw [if_neg hwords, entryAt?, if_neg fun h => hwords h.2]
        rfl
    · rw [if_neg fun h => hvector h.2, entryAt?, if_neg fun h => hvector h.1]
      rfl

theorem entryFrom_eq {tokens : List Token} {depths : List Nat} {ps : List Placed} {i : Nat}
    (ht : tokens.drop i = ps.map (·.1)) (hd : depths.drop i = ps.map (·.2)) :
    entryFrom tokens depths i = .ok ((findEntry ps).map fun e =>
      (i + e.before.length, e.parameter, e.dialect)) := by
  induction ps generalizing i with
  | nil =>
    have := List.drop_eq_nil_iff.mp ht
    rw [entryFrom, if_neg (by omega)]
    rfl
  | cons p ps ih =>
    by_cases hlen : (p :: ps).length ≤ 6
    · have : tokens.length - i = (p :: ps).length := by rw [← List.length_drop, ht, List.length_map]
      rw [entryFrom, if_neg (by omega), findEntry_short hlen]
      rfl
    · rw [entryFrom_step (Nat.lt_of_not_le hlen) ht hd, findEntry]
      cases hat : entryAt? (p :: ps) with
      | some e => simp only [Option.elim_some, Option.map_some, entryAt?_before hat, List.length_nil,
        Nat.add_zero]
      | none =>
        rw [Option.elim_none, ih (drop_next ht) (drop_next hd), Option.map_map]
        congr 2
        funext e
        simp only [Function.comp_apply, List.length_cons]
        congr 1
        omega

/-! ## Calls -/

theorem exists_of_afterLastComma {d : Nat} {ts last : List Token} (h : afterLastComma d ts = some last) :
    ∃ others comma, ts = others ++ comma :: last := by
  induction ts generalizing d with
  | nil => simp [afterLastComma] at h
  | cons t ts ih =>
    rw [afterLastComma] at h
    split at h
    · rename_i hlast
      obtain rfl := Option.some.inj h
      obtain ⟨others, comma, rfl⟩ := ih hlast
      exact ⟨t :: others, comma, rfl⟩
    · split at h
      · obtain rfl := Option.some.inj h
        exact ⟨[], t, rfl⟩
      · cases h

/-- The number of the last comma in a call that starts at `o`. -/
def commaAt (o depth : Nat) (comma : Option Nat) (inside : List Token) : Option Nat :=
  match afterLastComma depth inside with
  | some last => some (o + inside.length - (last.length + 1))
  | none => comma

theorem commaAt_cons {o d e : Nat} {comma comma' : Option Nat} {t : Token} {ts : List Token}
    (he : (if opensBracket t then d + 1 else if closesBracket t then d - 1 else d) = e)
    (hcomma : comma' = if t.text = "," ∧ d = 0 then some o else comma) :
    commaAt o d comma (t :: ts) = commaAt (o + 1) e comma' ts := by
  unfold commaAt
  rw [afterLastComma]
  simp only [he]
  cases hlast : afterLastComma e ts with
  | some last =>
    simp only [List.length_cons]
    congr 1
    omega
  | none =>
    rw [hcomma]
    by_cases hc : t.text = "," ∧ d = 0
    · rw [if_pos hc, if_pos hc]
      simp only [List.length_cons]
      congr 1
      omega
    · rw [if_neg hc, if_neg hc]

theorem callFrom_eq {tokens body post : List Token} {stop i extra : Nat} {comma : Option Nat}
    (h : tokens.drop i = body ++ post) (hstop : stop = i + body.length) :
    callFrom tokens stop (extra + 1) comma i =
      .ok ((bracketed extra body).map fun p => (i + p.1.length, commaAt i extra comma p.1)) := by
  induction body generalizing i extra comma with
  | nil =>
    rw [callFrom, if_neg (by simp [hstop])]
    rfl
  | cons t body ih =>
    have hstep : ∀ {e : Nat} {comma' : Option Nat},
        (if opensBracket t then extra + 1 else if closesBracket t then extra - 1 else extra) = e →
        comma' = (if t.text = "," ∧ extra = 0 then some i else comma) →
        callFrom tokens stop (e + 1) comma' (i + 1) =
          .ok (((bracketed e body).map fun p => (t :: p.1, p.2)).map fun p =>
            (i + p.1.length, commaAt i extra comma p.1)) := by
      intro e comma' he hcomma
      rw [ih (drop_next h) (by rw [hstop, List.length_cons]; omega), Option.map_map]
      congr 2
      funext p
      simp only [Function.comp_apply, List.length_cons, commaAt_cons he hcomma]
      congr 1
      omega
    have hno : opensBracket t = true ∨ closesBracket t = true → ¬(t.text = "," ∧ extra = 0) := by
      intro hbracket hcomma
      obtain ⟨ho, hc⟩ := comma_no_bracket hcomma.1
      simp [ho, hc] at hbracket
    rw [callFrom, if_pos (by rw [hstop, List.length_cons]; omega), fetch_of_drop h]
    unfold bracketed
    simp only [bind, Except.bind, pure, Except.pure]
    by_cases ho : opensBracket t = true
    · rw [if_pos ho, if_pos ho]
      exact hstep (by rw [if_pos ho]) (by rw [if_neg (hno (Or.inl ho))])
    · rw [if_neg ho, if_neg ho]
      by_cases hc : closesBracket t = true
      · rw [if_pos hc, if_pos hc]
        cases extra with
        | zero => rfl
        | succ e =>
          rw [if_neg (by omega), show ((e + 1 : Nat) : Int) + 1 - 1 = e + 1 by omega]
          exact hstep (by rw [if_neg ho, if_pos hc]; rfl) (by rw [if_neg (hno (Or.inr hc))])
      · rw [if_neg hc, if_neg hc]
        by_cases hcomma : t.text = "," ∧ extra = 0
        · rw [if_pos ⟨hcomma.1, by omega⟩]
          exact hstep (by rw [if_neg ho, if_neg hc]) (by rw [if_pos hcomma])
        · rw [if_neg fun h => hcomma ⟨h.1, by omega⟩]
          exact hstep (by rw [if_neg ho, if_neg hc]) (by rw [if_neg hcomma])

/-- The call of a return, from the bracket that opens it. -/
theorem callFrom_opening {tokens rest post : List Token} {opening : Token} {stop i : Nat}
    (hopening : opening.text = "(")
    (h : tokens.drop i = opening :: (rest ++ post)) (hstop : stop = i + 1 + rest.length) :
    callFrom tokens stop 0 none i =
      .ok ((bracketed 0 rest).map fun p => (i + 1 + p.1.length, commaAt (i + 1) 0 none p.1)) := by
  have hopens : opensBracket opening = true := by simp [opensBracket, hopening]
  rw [callFrom, if_pos (by omega), fetch_of_drop h]
  simp only [bind, Except.bind, hopens, if_true]
  exact callFrom_eq (drop_next h) hstop

/-! ## Returns -/

theorem scalarAt_eq {vector : String} (h : vectorTypes.contains vector) :
    scalarAt vector = .ok (scalarOf vector) := by
  simp only [vectorTypes, List.contains_eq_mem, List.mem_cons, List.not_mem_nil, or_false,
    decide_eq_true_eq] at h
  rcases h with rfl | rfl | rfl <;> rfl

theorem editAt_eq (source : List Char) (parameter : String) {tokens inside after post : List Token}
    {vector closing : Token} {stop i : Nat} (hvector : vectorTypes.contains vector.text)
    (h : tokens.drop i = inside ++ closing :: (after ++ post))
    (hstop : stop = i + inside.length + 1 + after.length) :
    editAt source parameter tokens stop vector (i + inside.length) (commaAt i 0 none inside) =
      .ok ((alphaSite? vector.text inside after).map (alphaEdit source parameter)) := by
  unfold editAt commaAt alphaSite?
  cases hlast : afterLastComma 0 inside with
  | none => rfl
  | some argument =>
    obtain ⟨others, comma, rfl⟩ := exists_of_afterLastComma hlast
    have hcomma : i + (others ++ comma :: argument).length - (argument.length + 1) = i + others.length := by
      simp only [List.length_append, List.length_cons]
      omega
    have hclose : i + (others ++ comma :: argument).length = i + others.length + 1 + argument.length := by
      simp only [List.length_append, List.length_cons]
      omega
    have hdrop : tokens.drop (i + others.length + 1) = argument ++ closing :: (after ++ post) :=
      drop_next (drop_behind (h.trans (List.append_assoc others (comma :: argument) _)))
    have hbehind : tokens.drop (i + (others ++ comma :: argument).length + 1) = after ++ post :=
      drop_next (drop_behind h)
    simp only [bind, Except.bind, pure, Except.pure, hcomma]
    rw [hclose] at hbehind hstop ⊢
    rw [slice_of_drop hdrop]
    cases after with
    | nil =>
      rw [if_pos (by rw [hstop]; exact Nat.le_refl _)]
      cases argument <;> rfl
    | cons semicolon after =>
      rw [if_neg (by rw [hstop, List.length_cons]; omega), fetch_of_drop hbehind]
      cases argument with
      | nil => by_cases hsemicolon : semicolon.text = ";" <;> simp [hsemicolon]
      | cons t argument =>
        by_cases hsemicolon : semicolon.text = ";"
        · obtain ⟨u, hu⟩ : ∃ u, (t :: argument).getLast? = some u :=
            ⟨_, List.getLast?_eq_some_getLast (List.cons_ne_nil t argument)⟩
          have hlastfetch : fetch (t :: argument) ((t :: argument).length - 1) = .ok u := by
            rw [fetch, ← List.getLast?_eq_getElem?, hu]
          simp only [hsemicolon, ne_eq, not_true, if_false, if_true, reduceCtorEq,
            scalarAt_eq hvector, hlastfetch]
          simp only [fetch, List.getElem?_cons_zero, Option.map_some, alphaEdit, List.head?_cons, hu,
            Option.getD_some]
        · simp only [hsemicolon, ne_eq, not_false_eq_true, if_true, if_false, Option.map_none]

section Steps

variable {source : List Char} {parameter : String} {tokens : List Token} {stop i : Nat}
    {ret vector opening : Token}

theorem editsFrom_of_other (hi : i + 2 < stop)
    (hfetch : fetch tokens i = .ok ret ∧ fetch tokens (i + 1) = .ok vector ∧
      fetch tokens (i + 2) = .ok opening)
    (hno : ¬(ret.text = "return" ∧ vectorTypes.contains vector.text ∧ opening.text = "(")) :
    editsFrom source parameter tokens stop i = editsFrom source parameter tokens stop (i + 1) := by
  conv => lhs; unfold editsFrom
  rw [if_pos hi, hfetch.1, hfetch.2.1, hfetch.2.2]
  simp only [bind, Except.bind]
  rw [if_neg hno]

theorem editsFrom_of_unclosed (hi : i + 2 < stop)
    (hfetch : fetch tokens i = .ok ret ∧ fetch tokens (i + 1) = .ok vector ∧
      fetch tokens (i + 2) = .ok opening)
    (hhead : ret.text = "return" ∧ vectorTypes.contains vector.text ∧ opening.text = "(")
    (hcall : callFrom tokens stop 0 none (i + 2) = .ok none) :
      editsFrom source parameter tokens stop i = .ok [] := by
  rw [editsFrom, if_pos hi, hfetch.1, hfetch.2.1, hfetch.2.2]
  simp only [bind, Except.bind, pure, Except.pure]
  rw [if_pos hhead]
  split
  · rename_i heq
    rw [hcall] at heq
    cases heq
  · rfl
  · rename_i heq
    rw [hcall] at heq
    cases heq

theorem editsFrom_of_closed {close : Nat} {comma : Option Nat} {edit : Option Edit}
    {edits : List Edit} (hi : i + 2 < stop)
    (hfetch : fetch tokens i = .ok ret ∧ fetch tokens (i + 1) = .ok vector ∧
      fetch tokens (i + 2) = .ok opening)
    (hhead : ret.text = "return" ∧ vectorTypes.contains vector.text ∧ opening.text = "(")
    (hcall : callFrom tokens stop 0 none (i + 2) = .ok (some (close, comma)))
    (hedit : editAt source parameter tokens stop vector close comma = .ok edit)
    (hrest : editsFrom source parameter tokens stop close = .ok edits) :
    editsFrom source parameter tokens stop i = .ok (edit.toList ++ edits) := by
  rw [editsFrom, if_pos hi, hfetch.1, hfetch.2.1, hfetch.2.2]
  simp only [bind, Except.bind, pure, Except.pure]
  rw [if_pos hhead]
  split
  · rename_i heq
    rw [hcall] at heq
    cases heq
  · rename_i heq
    rw [hcall] at heq
    cases heq
  · rename_i heq
    rw [hcall] at heq
    obtain ⟨rfl, rfl⟩ := Prod.mk.inj (Option.some.inj (Except.ok.inj heq))
    rw [hedit, hrest]

/-- A token that is no return is passed over. -/
theorem editsFrom_skip {t : Token} {body post : List Token} (h : tokens.drop i = t :: (body ++ post))
    (hstop : stop = i + 1 + body.length) (ht : t.text ≠ "return") :
    editsFrom source parameter tokens stop i = editsFrom source parameter tokens stop (i + 1) := by
  rcases body with _ | ⟨b, _ | ⟨c, body⟩⟩
  · simp only [List.length_nil] at hstop
    rw [editsFrom, if_neg (by omega), editsFrom, if_neg (by omega)]
  · simp only [List.length_cons, List.length_nil] at hstop
    rw [editsFrom, if_neg (by omega), editsFrom, if_neg (by omega)]
  · simp only [List.length_cons] at hstop
    exact editsFrom_of_other (by omega) (fetch_three h) fun hreturn => ht hreturn.1

end Steps

theorem editsFrom_eq (source : List Char) (parameter : String) {tokens body post : List Token} {stop i : Nat}
    (h : tokens.drop i = body ++ post) (hstop : stop = i + body.length) :
    editsFrom source parameter tokens stop i = .ok ((returns body).map (alphaEdit source parameter)) := by
  induction body using returns.induct generalizing i with
  | case1 ret vector opening rest hhead hnone =>
    have hstop' : stop = i + 2 + 1 + rest.length := by simp only [List.length_cons] at hstop; omega
    have hcall := callFrom_opening hhead.2.2 (drop_next (drop_next h)) hstop'
    rw [hnone] at hcall
    rw [returns_of_unclosed hhead hnone]
    exact editsFrom_of_unclosed (by omega) (fetch_three h) hhead hcall
  | case2 ret vector opening rest hhead inside after hsome ih =>
    have hstop' : stop = i + 2 + 1 + rest.length := by simp only [List.length_cons] at hstop; omega
    have hcall := callFrom_opening hhead.2.2 (drop_next (drop_next h)) hstop'
    rw [hsome] at hcall
    obtain ⟨closing, rfl, hclosing, -⟩ := bracketed_spec hsome
    have hend : stop = i + 2 + 1 + inside.length + 1 + after.length := by
      simp only [List.length_append, List.length_cons] at hstop'
      omega
    have hinside : tokens.drop (i + 2 + 1) = inside ++ closing :: (after ++ post) :=
      (drop_next (drop_next (drop_next h))).trans (List.append_assoc inside (closing :: after) post)
    have hedit := editAt_eq source parameter hhead.2.1 hinside hend
    -- the next return is looked for from the closing bracket on
    have hskip : closing.text ≠ "return" := by
      intro hreturn
      simp [closesBracket, hreturn] at hclosing
    have hbehind := drop_behind hinside
    have hrest := (editsFrom_skip hbehind hend hskip).trans (ih (drop_next hbehind) hend)
    rw [returns_of_closed hhead hsome, editsFrom_of_closed (by omega)
      (fetch_three h) hhead hcall hedit hrest]
    cases alphaSite? vector.text inside after <;> rfl
  | case3 ret vector opening rest hhead ih =>
    have hrest := ih (drop_next h) (by rw [hstop, List.length_cons]; omega)
    simp only [List.length_cons] at hstop
    rw [editsFrom_of_other (by omega) (fetch_three h) hhead, hrest, returns, if_neg hhead]
  | case4 body hshort =>
    have hlen : body.length ≤ 2 := by
      rcases body with _ | ⟨a, _ | ⟨b, _ | ⟨c, body⟩⟩⟩
      · simp
      · simp
      · simp
      · exact (hshort a b c body rfl).elim
    rw [editsFrom, if_neg (by omega), returns]
    · rfl
    · exact hshort

/-! ## Uniform declarations -/

theorem semicolonFrom_eq {tokens body post : List Token} {stop i : Nat} (h : tokens.drop i = body ++ post)
    (hstop : stop = i + body.length) :
    semicolonFrom tokens stop i = .ok (i + (body.takeWhile (·.text != ";")).length) := by
  induction body generalizing i with
  | nil =>
    rw [semicolonFrom, if_neg (by simp [hstop])]
    rfl
  | cons t body ih =>
    rw [semicolonFrom, if_pos (by simp [hstop]), fetch_of_drop h]
    simp only [bind, Except.bind, pure, Except.pure]
    by_cases ht : t.text = ";"
    · rw [if_pos ht, List.takeWhile_cons_of_neg (by simp [ht])]
      rfl
    · rw [if_neg ht, List.takeWhile_cons_of_pos (by simpa using ht), List.length_cons,
        ih (drop_next h) (by rw [hstop, List.length_cons]; omega)]
      congr 1
      omega

theorem semicolonFrom_statement {tokens post : List Token} {ps : List Placed} {t : Token} {d stop i : Nat}
    (h : tokens.drop i = ((t, d) :: ps).map (·.1) ++ post) (hstop : stop = i + ((t, d) :: ps).length)
    (ht : (t.text != ";") = true) :
    semicolonFrom tokens stop i = .ok (i + ((ps.takeWhile (·.1.text != ";")).length + 1)) := by
  rw [semicolonFrom_eq h (by rw [hstop, List.length_map]), List.map_cons, List.takeWhile_cons,
    if_pos ht, List.takeWhile_map, List.length_cons, List.length_map]
  rfl

/-- A declaration goes on to the next semicolon. -/
theorem uniformStatementsFrom_some (reading : List Token) (ps : List Placed) :
    uniformStatementsFrom (some reading) ps =
      match ps.dropWhile (·.1.text != ";") with
      | [] => []
      | semicolon :: rest =>
        ⟨reading.reverse ++ (ps.takeWhile (·.1.text != ";")).map (·.1),
          semicolon.1⟩ :: uniformStatementsFrom none rest := by
  induction ps generalizing reading with
  | nil => rfl
  | cons p ps ih =>
    obtain ⟨t, d⟩ := p
    rw [uniformStatementsFrom]
    by_cases ht : t.text = ";"
    · rw [if_pos ht, List.dropWhile_cons_of_neg (by simp [ht]), List.takeWhile_cons_of_neg (by simp [ht])]
      simp
    · rw [if_neg ht, ih, List.dropWhile_cons_of_pos (by simpa using ht),
        List.takeWhile_cons_of_pos (by simpa using ht)]
      simp

/-- The tokens and the semicolon that a pair of numbers stands for. -/
def statementAt (tokens : List Token) (p : Nat × Nat) :
    List Token × Option Token := (slice tokens p.1 p.2, tokens[p.2]?)

section Steps

variable {tokens : List Token} {depths : List Nat} {stop i d : Nat} {t : Token}

theorem statementsFrom_of_other (hi : i < stop) (hd : fetch depths i = .ok d) (ht : fetch tokens i = .ok t)
    (hno : ¬(d = 0 ∧ t.text = "uniform")) :
    statementsFrom tokens depths stop i = statementsFrom tokens depths stop (i + 1) := by
  conv => lhs; unfold statementsFrom
  rw [if_pos hi, hd, ht]
  simp only [bind, Except.bind]
  rw [if_neg hno]

theorem statementsFrom_of_open {last : Nat} (hi : i < stop) (hd : fetch depths i = .ok d)
    (ht : fetch tokens i = .ok t)
    (hu : d = 0 ∧ t.text = "uniform") (hsemicolon : semicolonFrom tokens stop i = .ok last)
    (hlast : stop ≤ last) :
    statementsFrom tokens depths stop i = .ok [] := by
  rw [statementsFrom, if_pos hi, hd, ht]
  simp only [bind, Except.bind, pure, Except.pure]
  rw [if_pos hu]
  split
  · rename_i heq
    rw [hsemicolon] at heq
    cases heq
  · rename_i heq
    rw [hsemicolon] at heq
    obtain rfl := Except.ok.inj heq
    rw [if_pos hlast]

theorem statementsFrom_of_ended {last : Nat} {pairs : List (Nat × Nat)} (hi : i < stop)
    (hd : fetch depths i = .ok d)
    (ht : fetch tokens i = .ok t) (hu : d = 0 ∧ t.text = "uniform")
    (hsemicolon : semicolonFrom tokens stop i = .ok last)
    (hlast : last < stop) (hrest : statementsFrom tokens depths stop (last + 1) = .ok pairs) :
    statementsFrom tokens depths stop i = .ok ((i, last) :: pairs) := by
  rw [statementsFrom, if_pos hi, hd, ht]
  simp only [bind, Except.bind, pure, Except.pure]
  rw [if_pos hu]
  split
  · rename_i heq
    rw [hsemicolon] at heq
    cases heq
  · rename_i heq
    rw [hsemicolon] at heq
    obtain rfl := Except.ok.inj heq
    rw [if_neg (Nat.not_le.mpr hlast), hrest]

end Steps

theorem statementsFrom_eq {tokens : List Token} {depths : List Nat} {ps post : List Placed} {stop i : Nat}
    (ht : tokens.drop i = (ps ++ post).map (·.1)) (hd : depths.drop i = (ps ++ post).map (·.2))
    (hstop : stop = i + ps.length) :
    ∃ pairs, statementsFrom tokens depths stop i = .ok pairs ∧
      pairs.map (statementAt tokens) = (uniformStatementsFrom none ps).map fun s =>
        (s.tokens, some s.semicolon) := by
  induction hn : ps.length using Nat.strongRecOn generalizing i ps with
  | ind n ih =>
    subst hn
    cases ps with
    | nil =>
      refine ⟨[], ?_, rfl⟩
      rw [statementsFrom, if_neg (by simp [hstop])]
      rfl
    | cons p ps =>
      obtain ⟨t, d⟩ := p
      have hi : i < stop := by simp [hstop]
      have htoken := fetch_of_drop ht
      have hdepth := fetch_of_drop hd
      rw [uniformStatementsFrom]
      by_cases hu : d = 0 ∧ t.text = "uniform"
      · have hsemicolon := semicolonFrom_statement (ht.trans List.map_append) hstop (by rw [hu.2]; decide)
        have hcut : ps = ps.takeWhile (·.1.text != ";") ++ ps.dropWhile (·.1.text != ";") :=
          List.takeWhile_append_dropWhile.symm
        rw [if_pos hu, uniformStatementsFrom_some]
        generalize ps.takeWhile (·.1.text != ";") = run at hcut hsemicolon ⊢
        generalize ps.dropWhile (·.1.text != ";") = behind at hcut ⊢
        subst hcut
        cases behind with
        | nil =>
          refine ⟨[], statementsFrom_of_open hi hdepth htoken hu hsemicolon ?_, rfl⟩
          simp [hstop]
        | cons semicolon more =>
          have htokens : tokens.drop i = (t :: run.map (·.1)) ++ semicolon.1 :: (more ++ post).map
              (·.1) := by
            rw [ht]
            simp
          have hdepths : depths.drop i = (d :: run.map (·.2)) ++ semicolon.2 :: (more ++ post).map
              (·.2) := by
            rw [hd]
            simp
          have hbehind := drop_behind htokens
          have hbehindDepths := drop_behind hdepths
          have hslice := slice_of_drop htokens
          simp only [List.length_cons, List.length_map] at hbehind hbehindDepths hslice
          obtain ⟨pairs, hpairs, hstatements⟩ := ih more.length
            (by simp only [List.length_append, List.length_cons]; omega) (drop_next hbehind)
              (drop_next hbehindDepths)
            (by simp only [hstop, List.length_append, List.length_cons]; omega) rfl
          refine ⟨(i, i + (run.length + 1)) :: pairs,
            statementsFrom_of_ended hi hdepth htoken hu hsemicolon ?_ hpairs, ?_⟩
          · rw [hstop]
            simp
          · rw [List.map_cons, hstatements, statementAt, hslice,
              ← Nat.add_zero (i + (run.length + 1)), ← List.getElem?_drop, hbehind]
            simp
      · obtain ⟨pairs, hpairs, hstatements⟩ := ih ps.length (by simp) (drop_next ht) (drop_next hd)
          (by rw [hstop, List.length_cons]; omega) rfl
        rw [if_neg hu]
        exact ⟨pairs, (statementsFrom_of_other hi hdepth htoken hu).trans hpairs, hstatements⟩

/-! ## The pass -/

theorem insertionsAt_eq (source : List Char) (entry : Entry) {tokens : List Token}
    {depths : List Nat} {rest : List Placed}
    (ht : tokens = (entry.before ++ (entry.returnType, 0) :: rest).map (·.1))
    (hd : depths = (entry.before ++ (entry.returnType, 0) :: rest).map (·.2)) :
    insertionsAt source tokens depths entry.before.length entry.dialect = .ok (insertions source entry) := by
  obtain ⟨pairs, hpairs, hstatements⟩ := statementsFrom_eq (i := 0) ht hd
    (Nat.zero_add entry.before.length).symm
  have hret : fetch tokens entry.before.length = .ok entry.returnType := by
    have := fetch_of_drop (drop_behind (i := 0) (ht.trans List.map_append))
    rwa [List.length_map, Nat.zero_add] at this
  have hdeclared : (pairs.flatMap fun p => ((slice tokens p.1 p.2).filter (·.kind = .name)).map (·.text)) =
      declaredNames (uniformStatements entry.before) := by
    have := congrArg (fun l => l.flatMap fun (s : List Token × Option Token) =>
      (s.1.filter (·.kind = .name)).map (·.text))
      hstatements
    rw [List.flatMap_map, List.flatMap_map] at this
    exact this
  have hlast : pairs.getLast?.map (statementAt tokens) =
      (uniformStatements entry.before).getLast?.map fun s => (s.tokens, some s.semicolon) := by
    rw [← List.getLast?_map, hstatements, List.getLast?_map]
    rfl
  unfold insertionsAt insertions
  simp only [hpairs, hret, bind, Except.bind, pure, Except.pure, hdeclared]
  cases hp : pairs.getLast? with
  | none =>
    rw [hp] at hlast
    rw [Option.map_eq_none_iff.mp hlast.symm]
  | some pair =>
    rw [hp] at hlast
    obtain ⟨s, hs, heq⟩ := Option.map_eq_some_iff.mp hlast.symm
    have hsemicolon : fetch tokens pair.2 = .ok s.semicolon := by
      rw [fetch, ← show some s.semicolon = tokens[pair.2]? from congrArg Prod.snd heq]
    simp only [hs, hsemicolon]

/-- The brace of an entry point is matched. -/
theorem matchFrom_heading {tokens before body rest : List Token} {w : Heading} (hvalid : w.Valid)
    (hts : tokens = before ++ (w.tokens ++ rest)) (hbody : blockBody 0 rest = some body) :
    matchFrom tokens 0 (before.length + 6) = .ok (before.length + 7 + body.length) := by
  have hbrace : tokens.drop (before.length + 6) = w.brace :: rest := by
    rw [hts, ← List.drop_drop, List.drop_left]
    rfl
  exact matchFrom_opening hbrace hvalid.2.2.2.2.2.2 hbody

end Numbered

/-- The pass by numbers is the pass: it makes no error. -/
theorem numberedWrap_eq (source : String) : numberedWrap source = .ok (wrap source) := by
  unfold numberedWrap wrap plan
  generalize hts : significant (tokenize source) = ts
  by_cases hany : ts.any (·.text == "u_morphProgress") = true
  · rw [if_pos hany, if_pos hany]
    rfl
  rw [if_neg hany, if_neg hany]
  cases hdepths : braceDepths ts with
  | none => rfl
  | some depths =>
    have hbal : through 0 (ts.map lexeme) = some 0 := exists_depths_iff.mp ⟨depths, hdepths⟩
    have htokens : ts = (placed 0 ts).map (·.1) := (placed_tokens 0 ts).symm
    have hnumbers : depths = (placed 0 ts).map (·.2) := depths_eq hdepths
    have hentry := Numbered.entryFrom_eq (i := 0) htokens hnumbers
    simp only [hentry, zip_depthsFrom hdepths, bind, Except.bind, pure, Except.pure]
    cases hfind : findEntry (placed 0 ts) with
    | none => rfl
    | some entry =>
      obtain ⟨before, w, rest, hfirst, rfl⟩ := (findEntry_eq_some_iff hbal).mp hfind
      obtain ⟨body, brace, more, hbody, rfl, -⟩ := exists_body (hts ▸ hbal) (hts ▸ hfirst)
      have hlen : (placed 0 before).length = before.length := by
        rw [← List.length_map (f := (·.1)), placed_tokens]
      have hmatch := Numbered.matchFrom_heading hfirst.valid hfirst.cut hbody
      have hstart : ts.drop (before.length + 7) = body ++ brace :: more := by
        rw [hfirst.cut, ← List.drop_drop, List.drop_left]
        rfl
      have hedits := Numbered.editsFrom_eq source.toList w.name.text hstart rfl
      obtain ⟨rest, hplaced⟩ : ∃ rest, placed 0 ts = placed 0 before ++ (w.ret, 0) :: rest := by
        rw [hfirst.cut, placed_append hfirst.depth]
        exact ⟨_, rfl⟩
      rw [hplaced] at htokens hnumbers
      have hadded := Numbered.insertionsAt_eq source.toList
        ⟨placed 0 before, w.ret, w.name.text, w.dialect, body ++ brace :: more⟩ htokens hnumbers
      simp only [hlen] at hadded
      simp only [Option.map_some, Nat.zero_add, hlen, hmatch, hedits, hadded, hbody,
        Option.getD_some, List.isEmpty_map]
      cases (returns body).isEmpty <;> rfl

end ShaderLoom.Morph
