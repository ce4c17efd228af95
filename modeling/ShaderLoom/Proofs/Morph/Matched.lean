/-
  ShaderLoom.Proofs.Morph.Matched — braces and the ones that close them.

  Where the braces of a row of tokens balance, the depths along it are what is open before each token
  (`depths_counted`). Whatever stands around a block, its body ends where the depth comes back to that behind
  its opening brace: the scan of the body starts anew from zero, and by as much as the two depths differ at its
  start they differ all along (`depth_in_body`). So the brace behind the body, which the loop over token numbers
  comes to without an error, is the first that closes at this depth (`braces_matched`).
-/

import Mathlib.Order.Bounds.Basic
import ShaderLoom.Proofs.Morph.Refused

namespace ShaderLoom.Morph

open ShaderLoom.Lexeme

/-! ## The depth at a place -/

section Depth

variable {tokens : List Token} {depths : List Nat}

/-- Before the place of a token the row leads to the depth there. -/
theorem depth_at {d : Nat} {before after : List Token} {t : Token}
    (h : depthsFrom d (before ++ t :: after) = some depths) :
    ∃ e, through d (before.map Token.lexeme) = some e ∧ depths[before.length]? = some e := by
  have hthrough := exists_depths_iff.mp ⟨depths, h⟩
  rw [List.map_append, through_append] at hthrough
  obtain ⟨e, he, -⟩ := Option.bind_eq_some_iff.mp hthrough
  refine ⟨e, he, ?_⟩
  have hlen : (placed d before).length = before.length := by
    rw [← List.length_map (f := Prod.fst), placed_tokens]
  rw [depths_eq h, placed_append he, List.getElem?_map, List.getElem?_append_right (Nat.le_of_eq hlen), hlen,
    Nat.sub_self]
  rfl

/-- A row cut at a place in it. -/
theorem exists_cut {i : Nat} {t : Token} (h : tokens[i]? = some t) :
    ∃ before after, tokens = before ++ t :: after ∧ before.length = i := by
  obtain ⟨hi, rfl⟩ := List.getElem?_eq_some_iff.mp h
  refine ⟨tokens.take i, tokens.drop (i + 1), ?_, List.length_take_of_le (Nat.le_of_lt hi)⟩
  rw [← List.drop_eq_getElem_cons hi, List.take_append_drop]

theorem length_depths (h : braceDepths tokens = some depths) : depths.length = tokens.length := by
  rw [depths_eq h, List.length_map, ← List.length_map (f := Prod.fst), placed_tokens]

/-- The depths are what is open before each token. -/
theorem depths_counted (h : braceDepths tokens = some depths) :
    depths.map (fun (d : Nat) => (d : Int)) =
      (List.range tokens.length).map fun i => (opened (tokens.take i) : Int) - closed (tokens.take i) := by
  refine List.ext_getElem? fun i => ?_
  by_cases hi : i < tokens.length
  · obtain ⟨t, ht⟩ : ∃ t, tokens[i]? = some t := ⟨_, List.getElem?_eq_getElem hi⟩
    obtain ⟨before, after, rfl, rfl⟩ := exists_cut ht
    obtain ⟨e, he, hdepth⟩ := depth_at h
    have hcount := (through_tokens_iff.mp he).2
    rw [List.getElem?_map, List.getElem?_map, List.getElem?_range hi, hdepth]
    simp only [Option.map_some, List.take_left, Option.some.injEq]
    omega
  · rw [List.getElem?_eq_none (by rw [List.length_map, length_depths h]; omega),
      List.getElem?_eq_none (by rw [List.length_map, List.length_range]; omega)]

end Depth

/-! ## Blocks -/

/-- Within a balanced row the depth does not fall below that at its start, and where a brace closes it is
above. -/
theorem depth_in_body {d : Nat} {inner outer : List Token} {t : Token}
    (h : through 0 ((inner ++ t :: outer).map Token.lexeme) = some 0) :
    ∃ e, through d (inner.map Token.lexeme) = some (d + e) ∧ (closes t.lexeme = true → 0 < e) := by
  rw [List.map_append, through_append] at h
  obtain ⟨e, he, h⟩ := Option.bind_eq_some_iff.mp h
  rw [List.map_cons, through_cons] at h
  obtain ⟨f, hf, -⟩ := Option.bind_eq_some_iff.mp h
  refine ⟨e, ?_, fun hcloses => ?_⟩
  · have := through_add he d
    rwa [Nat.zero_add, Nat.add_comm e d] at this
  · have := (depthBehind_eq_some_iff.mp hf).2
    rwa [hcloses] at this

/-- The places behind an opening brace where a brace closes at the depth inside the block. -/
def closingPlaces (tokens : List Token) (depths : List Nat) (i : Nat) : Set Nat :=
  {j | i < j ∧ (tokens[j]?).map (·.text) = some "\x7d" ∧ depths[j]? = (depths[i]?).map (· + 1)}

/-- A block from its opening brace at `i` to its closing one at `j`, with its body in between. -/
structure BlockAt (tokens : List Token) (depths : List Nat) (i j : Nat) : Prop where
  matched : Numbered.matchFrom tokens 0 i = .ok j
  body : blockBody 0 (tokens.drop (i + 1)) = some ((tokens.take j).drop (i + 1))
  first : IsLeast (closingPlaces tokens depths i) j
  inside : ∀ k, i < k → k < j → ∃ d e, depths[i]? = some d ∧ depths[k]? = some e ∧ d + 1 ≤ e

section Block

variable {before after inner outer body rest : List Token} {opening brace t : Token} {depths : List Nat}

theorem getElem?_behind (before after : List Token) (t : Token) (m : Nat) :
    (before ++ t :: after)[before.length + 1 + m]? = after[m]? := by
  rw [List.getElem?_append_right (by omega), show before.length + 1 + m - before.length = m + 1 by omega,
    List.getElem?_cons_succ]

/-- The depth at a place behind an opening brace. -/
theorem depth_behind_opening {d e : Nat} (hopening : opening.text = "\x7b")
    (h : braceDepths (before ++ opening :: (inner ++ t :: outer)) = some depths)
    (hd : through 0 (before.map Token.lexeme) = some d) (he : through (d + 1) (inner.map Token.lexeme) = some e) :
    depths[before.length + 1 + inner.length]? = some e := by
  have hopened : through 0 ((before ++ [opening]).map Token.lexeme) = some (d + 1) := by
    rw [List.map_append, through_append_of hd, List.map_singleton, through_cons, depthBehind,
      if_pos ((opens_lexeme opening).mpr hopening)]
    rfl
  rw [← List.singleton_append, ← List.append_assoc, ← List.append_assoc] at h
  obtain ⟨f, hf, hplace⟩ := depth_at h
  rw [List.map_append, through_append_of hopened, he] at hf
  rw [List.length_append, List.length_append, List.length_singleton] at hplace
  rw [hplace, hf]

/-- A place between a token and the end of what stands behind it. -/
theorem exists_place {k : Nat} (hlow : before.length < k) (hhigh : k < before.length + 1 + body.length) :
    ∃ inner t outer, body = inner ++ t :: outer ∧ before.length + 1 + inner.length = k := by
  obtain ⟨inner, outer, hcut, hlen⟩ := exists_cut (List.getElem?_eq_getElem (l := body)
    (i := k - (before.length + 1)) (by omega))
  exact ⟨inner, _, outer, hcut, by omega⟩

/-- A balanced row between two braces is the body of a block. -/
theorem blockAt_of_body (hopening : opening.text = "\x7b") (hbrace : brace.text = "\x7d")
    (h : braceDepths (before ++ opening :: (body ++ brace :: rest)) = some depths)
    (hbody : through 0 (body.map Token.lexeme) = some 0) :
    BlockAt (before ++ opening :: (body ++ brace :: rest)) depths before.length (before.length + 1 + body.length) := by
  obtain ⟨d, hd, hdepth⟩ := depth_at h
  have hclosed : depths[before.length + 1 + body.length]? = some (d + 1) :=
    depth_behind_opening hopening h hd (through_balanced hbody _)
  have hblock : blockBody 0 (body ++ brace :: rest) = some body := blockBody_of_through hbody hbrace
  refine ⟨Numbered.matchFrom_opening List.drop_left hopening hblock, ?_, ⟨⟨by omega, ?_, ?_⟩, fun k hk => ?_⟩,
    fun k hlow hhigh => ?_⟩
  · rw [List.drop_take, Numbered.drop_next List.drop_left, Nat.add_sub_cancel_left, List.take_left]
    exact hblock
  · rw [getElem?_behind, List.getElem?_append_right (Nat.le_refl _), Nat.sub_self, List.getElem?_cons_zero,
      Option.map_some, hbrace]
  · rw [hdepth, hclosed]
    rfl
  · obtain ⟨hlow, hcloses, heq⟩ := hk
    by_contra hhigh
    obtain ⟨inner, t, outer, rfl, rfl⟩ := exists_place hlow (Nat.lt_of_not_le hhigh)
    obtain ⟨e, he, habove⟩ := depth_in_body (d := d + 1) hbody
    rw [List.append_assoc, List.cons_append] at h hcloses
    have ht : t.text = "\x7d" := by
      rw [getElem?_behind, List.getElem?_append_right (Nat.le_refl _), Nat.sub_self] at hcloses
      exact Option.some.inj hcloses
    rw [depth_behind_opening hopening h hd he, hdepth] at heq
    have hlevel : d + 1 + e = d + 1 := Option.some.inj heq
    have hpos := habove ((closes_lexeme t).mpr ht)
    omega
  · obtain ⟨inner, t, outer, rfl, rfl⟩ := exists_place hlow hhigh
    obtain ⟨e, he, -⟩ := depth_in_body (d := d + 1) hbody
    rw [List.append_assoc, List.cons_append] at h
    exact ⟨d, d + 1 + e, hdepth, depth_behind_opening hopening h hd he, Nat.le_add_right _ _⟩

end Block

/-- A row of tokens has depths unless some prefix closes more than it opens or its braces do not come out even.
They are what is open before each token, and every opening brace starts a block that is closed, at the first
brace behind it that closes from the depth inside. -/
theorem braces_matched (tokens : List Token) :
    (braceDepths tokens = none ↔ Unbalanced tokens) ∧
    ∀ depths, braceDepths tokens = some depths →
      (depths.map (fun (d : Nat) => (d : Int)) =
        (List.range tokens.length).map fun i => (opened (tokens.take i) : Int) - closed (tokens.take i)) ∧
      ∀ i, (tokens[i]?).map (·.text) = some "\x7b" → ∃ j, BlockAt tokens depths i j := by
  refine ⟨braceDepths_eq_none_iff, fun depths h => ⟨depths_counted h, fun i hi => ?_⟩⟩
  obtain ⟨opening, hget, hopening⟩ := Option.map_eq_some_iff.mp hi
  obtain ⟨before, after, rfl, rfl⟩ := exists_cut hget
  obtain ⟨d, hd, -⟩ := depth_at h
  have hafter : through (0 + 1 + d) (after.map Token.lexeme) = some 0 := by
    have hthrough := exists_depths_iff.mp ⟨depths, h⟩
    rw [List.map_append, through_append_of hd, List.map_cons, through_cons, depthBehind,
      if_pos ((opens_lexeme opening).mpr hopening), Option.bind_some] at hthrough
    rwa [Nat.zero_add, Nat.add_comm]
  obtain ⟨body, hbody⟩ := exists_blockBody hafter (Nat.zero_le d)
  obtain ⟨hbalanced, brace, rest, rfl, hbrace⟩ := blockBody_spec hbody
  exact ⟨_, blockAt_of_body hopening hbrace h hbalanced⟩

end ShaderLoom.Morph
