/-
  ShaderLoom.Proofs.Morph.Declared — the names that a shader declares as uniforms at file scope.

  `scopeNames` reads off every `uniform <type> <name>;` at brace depth zero, in the whole text. A
  declaration is four lexemes, so rows of lexemes that none can run across are read apart
  (`declaredFrom_append`), and in a block nothing is declared (`declaredFrom_block`). From the entry
  point on the new text declares what the source does: all that is swapped is in the body
  (`Found.Of.declaredFrom_newLexemes`).
-/

import ShaderLoom.Proofs.Morph.Statements

namespace ShaderLoom.Morph

open ShaderLoom.Token ShaderLoom.Text
open ShaderLoom.Lexeme hiding significant isSignificant

/-- The name that `uniform <type> <name>;` at the start of a row declares. -/
def declared? : List Lexeme → Option String
  | (.name, keyword) :: (.name, _) :: (.name, declared) :: (.mark, stop) :: _ =>
    if keyword = "uniform".toList ∧ stop = [';'] then some (String.ofList declared) else none
  | _ => none

/-- The names declared at depth zero in a row that starts at a brace depth. -/
def declaredFrom (d : Nat) : List Lexeme → List String
  | [] => []
  | x :: xs => (if d = 0 then (declared? (x :: xs)).toList else []) ++ declaredFrom ((depthBehind d x).getD 0) xs

/-- The names that a source declares at file scope, one for each declaration. -/
def scopeNames (source : String) : List String := declaredFrom 0 (Lexeme.significant source.toList)

/-! ## Rows of lexemes -/

/-- No declaration runs from the first row into the second. -/
inductive Unjoined (xs ys : List Lexeme) : Prop
  | last : (∀ x ∈ xs.getLast?, x.1 ≠ .name) → Unjoined xs ys
  | first : (∀ y ∈ ys.head?, y.1 ≠ .name ∧ y ≠ mark ';') → Unjoined xs ys
  | short : (∀ y ∈ ys.take 3, y ≠ mark ';') → Unjoined xs ys

theorem declared?_eq_some_iff {xs : List Lexeme} {s : String} :
    declared? xs = some s ↔
      ∃ t n rest, xs = name "uniform" :: (.name, t) :: (.name, n) :: mark ';' :: rest ∧ String.ofList n = s := by
  constructor
  · intro h
    unfold declared? at h
    split at h
    · rename_i keyword t n stop rest
      split at h
      · rename_i hcond
        obtain ⟨rfl, rfl⟩ := hcond
        exact ⟨t, n, rest, rfl, Option.some.inj h⟩
      · cases h
    · cases h
  · rintro ⟨t, n, rest, rfl, rfl⟩
    rfl

theorem Unjoined.tail {x : Lexeme} {xs ys : List Lexeme} (h : Unjoined (x :: xs) ys) : Unjoined xs ys := by
  cases h with
  | last h =>
    cases xs with
    | nil => exact .last (by simp)
    | cons y xs => exact .last (by simpa [List.getLast?_cons_cons] using h)
  | first h => exact .first h
  | short h => exact .short h

theorem declared?_append {x : Lexeme} {xs ys : List Lexeme} (h : Unjoined (x :: xs) ys) :
    declared? (x :: (xs ++ ys)) = declared? (x :: xs) := by
  refine Option.ext fun s => ?_
  rw [declared?_eq_some_iff, declared?_eq_some_iff]
  constructor
  · rintro ⟨t, n, rest, hcut, rfl⟩
    -- one with less than four lexemes in the first row would run into the second
    rcases xs with _ | ⟨a, _ | ⟨b, _ | ⟨c, xs⟩⟩⟩ <;>
      simp only [List.cons_append, List.nil_append, List.cons.injEq] at hcut
    · obtain ⟨rfl, rfl⟩ := hcut
      cases h <;> simp_all [name]
    · obtain ⟨rfl, rfl, rfl⟩ := hcut
      cases h <;> simp_all
    · obtain ⟨rfl, rfl, rfl, rfl⟩ := hcut
      cases h <;> simp_all
    · obtain ⟨rfl, rfl, rfl, rfl, -⟩ := hcut
      exact ⟨t, n, xs, rfl, rfl⟩
  · rintro ⟨t, n, rest, hcut, rfl⟩
    exact ⟨t, n, rest ++ ys, by rw [← List.cons_append, hcut]; rfl, rfl⟩

theorem declaredFrom_append {d e : Nat} {xs ys : List Lexeme} (h : through d xs = some e) (hjoin : Unjoined xs ys) :
    declaredFrom d (xs ++ ys) = declaredFrom d xs ++ declaredFrom e ys := by
  induction xs generalizing d with
  | nil =>
    obtain rfl : d = e := by simpa using h
    rfl
  | cons x xs ih =>
    rw [through_cons] at h
    obtain ⟨k, hk, h⟩ := Option.bind_eq_some_iff.mp h
    rw [List.cons_append, declaredFrom, declaredFrom, declared?_append hjoin, hk, Option.getD_some, ih h hjoin.tail,
      List.append_assoc]

/-- In a block nothing is declared. -/
theorem declaredFrom_block {k e : Nat} {xs : List Lexeme} (h : through k xs = some e) (d : Nat) (ys : List Lexeme) :
    declaredFrom (k + (d + 1)) (xs ++ ys) = declaredFrom (e + (d + 1)) ys := by
  induction xs generalizing k with
  | nil =>
    obtain rfl : k = e := by simpa using h
    rfl
  | cons x xs ih =>
    rw [through_cons] at h
    obtain ⟨j, hj, h⟩ := Option.bind_eq_some_iff.mp h
    have hone : through k [x] = some j := by rw [through_cons, hj]; rfl
    have hx : depthBehind (k + (d + 1)) x = some (j + (d + 1)) := by
      obtain ⟨i, hi, hij⟩ := Option.bind_eq_some_iff.mp ((through_cons _ _ _).symm.trans (through_add hone (d + 1)))
      rw [hi]
      exact hij
    rw [List.cons_append, declaredFrom, if_neg (by omega), hx, Option.getD_some, List.nil_append, ih h]

theorem declaredFrom_of_no_stop {xs : List Lexeme} (h : ∀ x ∈ xs, x ≠ mark ';') (d : Nat) : declaredFrom d xs = [] := by
  induction xs generalizing d with
  | nil => rfl
  | cons x xs ih =>
    have hnone : declared? (x :: xs) = none := by
      rw [Option.eq_none_iff_forall_ne_some]
      intro s hs
      obtain ⟨t, n, rest, hcut, -⟩ := declared?_eq_some_iff.mp hs
      exact h (mark ';') (by simp [hcut]) rfl
    rw [declaredFrom, hnone, ih fun y hy => h y (by simp [hy])]
    simp

/-! ## From the entry point on -/

/-- Where nothing is twice, the arguments cut out of a row are where the row has them. -/
theorem exists_behind_cuts {cuts : List Cut} {body rest more : List Token} (hsplit : Split body (cuts.map Cut.site))
    (hne : ∀ c ∈ cuts, significant c.argument ≠ []) (hnodup : (body ++ rest).Nodup)
    (hcut : significant (Cut.tokens cuts) ++ more = body ++ rest) :
    ∃ m, body = significant (Cut.tokens cuts) ++ m ∧ more = m ++ rest := by
  induction cuts generalizing body with
  | nil => exact ⟨body, rfl, hcut⟩
  | cons c cuts ih =>
    obtain ⟨pre, post, rfl, -, hpost⟩ := hsplit
    obtain ⟨t, ts, ht⟩ := List.exists_cons_of_ne_nil (hne c (by simp))
    simp only [Cut.site, ht] at hcut hnodup ⊢
    obtain ⟨hkept, hrest⟩ := cut_unique hnodup
      (show _ = pre ++ t :: (ts ++ (post ++ rest)) by simp)
      (show _ = significant c.kept ++ t :: (ts ++ (significant (Cut.tokens cuts) ++ more)) by
        rw [← hcut]; simp [significant_append, ht])
    rw [show pre ++ (t :: ts ++ post) ++ rest = (pre ++ t :: ts) ++ (post ++ rest) by simp] at hnodup
    obtain ⟨m, rfl, hmore⟩ := ih hpost (fun d hd => hne d (by simp [hd])) (List.nodup_append.mp hnodup).2.1
      (List.append_cancel_left hrest).symm
    exact ⟨m, by simp [significant_append, ht, hkept], hmore⟩

namespace Found

variable {f : Found} {source : String}

/-- The cuts in the body: the first starts behind the heading. -/
theorem Of.exists_body (hf : f.Of source) : ∃ (cuts : List Cut) (m : List Token),
    f.body = significant (Cut.tokens cuts) ++ m ∧
      f.newLexemes = f.heading.tokens.map lexeme ++
        (Swap.after (cuts.map (Cut.lexemeSwap f.heading.name.text)) ++ (m ++ f.brace :: f.rest).map lexeme) := by
  obtain ⟨c, cuts, hcuts⟩ := List.exists_cons_of_ne_nil hf.nonempty
  have hne : ∀ c ∈ f.cuts, significant c.argument ≠ [] := by
    intro c hc hnil
    have hfirst := (hf.sound c hc).first
    rw [hnil, List.head?_nil, List.head?_eq_none_iff] at hfirst
    exact (hf.sound c hc).nonempty hfirst
  have hsplit := returns_split f.body
  rw [← hf.sites, hcuts] at hsplit
  obtain ⟨pre, post, hbody, -, hpost⟩ := hsplit
  obtain ⟨t, ts, ht⟩ := List.exists_cons_of_ne_nil (hne c (by simp [hcuts]))
  rw [Cut.site, ht] at hbody
  have honward := hf.significant_entry
  have hnodup : (f.heading.tokens ++ f.after).Nodup := by
    have := (ordered_significant source).nodup
    rw [hf.entry.cut] at this
    exact this.sublist (List.sublist_append_right _ _)
  rw [hcuts, after, hbody, significant_append, Cut.tokens_cons, significant_append, significant_append, ht] at honward
  rw [after, hbody] at hnodup
  obtain ⟨hkept, hrest⟩ := cut_unique hnodup
    (show _ = (f.heading.tokens ++ pre) ++ t :: (ts ++ (post ++ f.brace :: f.rest)) by simp)
    (show _ = significant c.kept ++ t :: (ts ++ (significant (Cut.tokens cuts) ++ significant f.tail)) by
      rw [← honward]; simp)
  rw [show f.heading.tokens ++ (pre ++ (t :: ts ++ post) ++ f.brace :: f.rest) =
    (f.heading.tokens ++ pre ++ t :: ts) ++ (post ++ f.brace :: f.rest) by simp] at hnodup
  obtain ⟨m, rfl, htail⟩ := exists_behind_cuts hpost (fun d hd => hne d (by simp [hcuts, hd]))
    (List.nodup_append.mp hnodup).2.1 (List.append_cancel_left hrest).symm
  have hpre : significant pre = pre := by
    refine List.filter_eq_self.mpr fun u hu => ?_
    have : u ∈ significant c.kept := hkept ▸ List.mem_append_right _ hu
    exact (List.mem_filter.mp this).2
  refine ⟨⟨pre, c.vector, c.argument⟩ :: cuts, m, ?_, ?_⟩
  · rw [hbody, Cut.tokens_cons, significant_append, significant_append, ht, hpre]
    simp
  · have hnew : (⟨pre, c.vector, c.argument⟩ : Cut).newLexemes f.heading.name.text = c.newLexemes f.heading.name.text :=
      rfl
    rw [newLexemes, lexemeSwaps, hcuts, htail]
    simp [Cut.lexemeSwap, hnew, hpre, ← hkept]

/-- The new text behind the heading: a block like the body, and what is behind it. -/
theorem Of.exists_block (hf : f.Of source) : ∃ block,
    f.newLexemes = f.heading.tokens.map lexeme ++ (block ++ (f.brace :: f.rest).map lexeme) ∧
      through 0 block = some 0 := by
  obtain ⟨cuts, m, hbody, hnew⟩ := hf.exists_body
  refine ⟨Swap.after (cuts.map (Cut.lexemeSwap f.heading.name.text)) ++ m.map lexeme, by rw [hnew]; simp, ?_⟩
  rw [through_lexemeSwaps hf.entry.isName, Cut.before_lexemeSwaps, ← List.map_append, ← hbody]
  exact (blockBody_spec hf.body).1

/-- In the heading of the entry point nothing is declared. -/
theorem Of.declaredFrom_heading (hf : f.Of source) (ys : List Lexeme) :
    declaredFrom 0 (f.heading.tokens.map lexeme ++ ys) = declaredFrom 1 ys := by
  have hname := hf.entry.isName
  have hmark : f.heading.brace.lexeme.1 ≠ .name := by
    intro hkind
    have hmem : f.heading.brace ∈ significant (tokenize source) := by rw [hf.entry.cut]; simp [Heading.tokens]
    have := isName_of_mem (List.mem_filter.mp hmem).1 hkind
    rw [hf.entry.valid.2.2.2.2.2.2] at this
    exact absurd this (by decide)
  have hstop : ∀ x ∈ f.heading.tokens.map lexeme, x ≠ mark ';' := by
    intro x hx heq
    obtain ⟨t, ht, rfl⟩ := List.mem_map.mp hx
    refine Heading.text_ne hf.entry.valid hname (by decide) (by decide) t ht (String.toList_inj.mp ?_ : t.text = ";")
    exact congrArg Prod.snd heq
  rw [declaredFrom_append (Heading.through_tokens hf.entry.valid hname 0)
    (.last (by simpa [Heading.tokens] using hmark)), declaredFrom_of_no_stop hstop]
  rfl

/-- From the entry point on the new text declares what the source does. -/
theorem Of.declaredFrom_newLexemes (hf : f.Of source) :
    declaredFrom 0 f.newLexemes = declaredFrom 0 ((significant f.onward).map lexeme) := by
  obtain ⟨block, hnew, hblock⟩ := hf.exists_block
  have hbody := (blockBody_spec hf.body).1
  rw [hnew, onward, hf.significant_entry, after, List.map_append, List.map_append, hf.declaredFrom_heading,
    hf.declaredFrom_heading, declaredFrom_block hblock 0, declaredFrom_block hbody 0]

end Found

end ShaderLoom.Morph
