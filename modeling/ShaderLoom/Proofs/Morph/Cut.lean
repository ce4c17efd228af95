/-
  ShaderLoom.Proofs.Morph.Cut — a row of tokens cut at the arguments that the pass swaps.

  A cut is a stretch of tokens that is kept and the last argument of a return behind it, with the
  comments in that argument but none around it (`Cut.Sound`). Sites that stand in a body one after
  another cut every row of tokens in which the body is (`exists_cuts`), and the alpha edits of the
  sites are the edits of the cuts, one behind another (`alphaEdits_eq`).
-/

import ShaderLoom.Proofs.Morph.Returns
import ShaderLoom.Proofs.Morph.Swap
import ShaderLoom.Proofs.Token.Layout
import ShaderLoom.Morph.Wrap

namespace ShaderLoom.Morph

open ShaderLoom.Token

structure Cut where
  kept : List Token
  vector : String
  argument : List Token

namespace Cut

def site (c : Cut) : AlphaSite := ⟨c.vector, significant c.argument⟩

/-- The tokens that were cut. -/
def tokens (cuts : List Cut) : List Token := cuts.flatMap fun c => c.kept ++ c.argument

@[simp] theorem tokens_nil : tokens [] = [] := rfl
@[simp] theorem tokens_cons (c : Cut) (cuts : List Cut) :
    tokens (c :: cuts) = c.kept ++ (c.argument ++ tokens cuts) := by
  simp [tokens]

/-- What the argument is swapped for: the morph alpha if it is one, else its product with it. -/
def replacement (parameter : String) (c : Cut) : String :=
  if isUnit (significant c.argument) then scalarOf c.vector ++ "(" ++ alphaCall parameter ++ ")"
  else scalarOf c.vector ++ "((" ++ String.ofList (textOf c.argument) ++ ") * " ++ alphaCall parameter ++ ")"

def swap (parameter : String) (c : Cut) : Swap Char :=
  ⟨textOf c.kept, textOf c.argument, (c.replacement parameter).toList⟩

/-- The argument starts behind a comma and both its ends are significant tokens. -/
structure Sound (c : Cut) : Prop where
  comma : ∃ others comma gap, c.kept = others ++ comma :: gap ∧ comma.text = "," ∧
    comma ∈ significant c.kept ∧ significant gap = []
  vector : c.vector ∈ vectorTypes
  nonempty : c.argument ≠ []
  first : c.argument.head? = (significant c.argument).head?
  last : c.argument.getLast? = (significant c.argument).getLast?

theorem before_swaps (parameter : String) (cuts : List Cut) :
    Swap.before (cuts.map (swap parameter)) = textOf (tokens cuts) := by
  induction cuts with
  | nil => rfl
  | cons c cuts ih => simp [swap, ih]

end Cut

/-! ## Cutting -/

theorem exists_cuts {ts body rest : List Token} {sites : List AlphaSite}
    (hts : significant ts = body ++ rest)
    (hsplit : Split body sites) :
    ∃ cuts tail, ts = Cut.tokens cuts ++ tail ∧ cuts.map Cut.site = sites ∧ ∀ c ∈ cuts, c.Sound := by
  induction sites generalizing ts body with
  | nil => exact ⟨[], ts, rfl, rfl, by simp⟩
  | cons site sites ih =>
    obtain ⟨pre, post, rfl, hat, hrest⟩ := hsplit
    obtain ⟨lead, ret, vector, opening, others, comma, closing, semicolon, after, hpre, -, -, -,
        hvector, -, hcomma, -, -, hne, -⟩ := hat
    rw [List.append_assoc, List.append_assoc] at hts
    obtain ⟨kept, argument, ts, rfl, hkept, hargument, hts, hfirst, hlast⟩ := exists_around hts hne
    obtain ⟨cuts, tail, rfl, hsites, hsound⟩ := ih hts hrest
    refine ⟨⟨kept, site.vector, argument⟩ :: cuts, tail, by simp, by simp [Cut.site, hargument, hsites], ?_⟩
    intro c hc
    rcases List.mem_cons.mp hc with rfl | hc
    · -- the last significant token of what is kept is the comma
      have hcut : significant kept = (lead ++ ret :: vector :: opening :: others) ++ [comma] := by
        simp [hkept, hpre]
      have hmem : comma ∈ significant kept := by simp [hcut]
      obtain ⟨before, behind, rfl, -, hbehind⟩ := significant_eq_append hcut
      obtain ⟨gap, more, rfl, -, hmore⟩ := significant_eq_cons hbehind
      refine ⟨⟨before ++ gap, comma, more, by simp, hcomma, hmem, hmore⟩, hvector, ?_,
        by rw [hfirst, hargument], by rw [hlast, hargument]⟩
      intro heq
      subst heq
      exact hne hargument.symm
    · exact hsound c hc

/-! ## Alpha edits -/

theorem alphaEdit_eq {pre post : List Token} {c : Cut} (hlaid : Laid 0 (pre ++ (c.argument ++ post)))
    (hc : c.Sound)
    (parameter : String) :
    alphaEdit (textOf (pre ++ (c.argument ++ post))) parameter c.site =
      ⟨(textOf pre).length, (textOf pre).length + (textOf c.argument).length,
        (c.replacement parameter).toList⟩ := by
  have hstart : ((significant c.argument).head?.map (·.start)).getD 0 = (textOf pre).length := by
    obtain ⟨t, more, hcut⟩ := List.exists_cons_of_ne_nil hc.nonempty
    rw [← hc.first, hcut]
    rw [hcut, List.cons_append] at hlaid
    simpa using hlaid.place.1
  have hstop : ((significant c.argument).getLast?.map (·.stop)).getD 0 =
      (textOf pre).length + (textOf c.argument).length := by
    obtain ⟨more, t, hcut⟩ := List.eq_nil_or_concat c.argument |>.resolve_left hc.nonempty
    rw [List.concat_eq_append] at hcut
    rw [← hc.last, hcut, List.getLast?_concat]
    rw [hcut] at hlaid
    simpa using hlaid.getLast_stop
  have htext : ((textOf (pre ++ (c.argument ++ post))).take
      ((textOf pre).length + (textOf c.argument).length)).drop (textOf pre).length = textOf c.argument := by
    rw [textOf_append, textOf_append, ← List.append_assoc, ← List.length_append, List.take_left,
      List.drop_left]
  unfold alphaEdit Cut.site Cut.replacement
  simp only [hstart, hstop, htext]
  split
  · rw [String.append_empty]
  · rw [show ("((" : String) = "(" ++ "(" from rfl]
    simp only [String.append_assoc]

theorem alphaEdits_eq {pre tail : List Token} {cuts : List Cut}
    (hlaid : Laid 0 (pre ++ (Cut.tokens cuts ++ tail)))
    (hcuts : ∀ c ∈ cuts, c.Sound) (parameter : String) :
    (cuts.map Cut.site).map (alphaEdit (textOf (pre ++ (Cut.tokens cuts ++ tail))) parameter) =
      Swap.edits (textOf pre).length (cuts.map (Cut.swap parameter)) := by
  induction cuts generalizing pre with
  | nil => rfl
  | cons c cuts ih =>
    have hcut : pre ++ (Cut.tokens (c :: cuts) ++ tail) =
        (pre ++ c.kept) ++ (c.argument ++ (Cut.tokens cuts ++ tail)) := by
      simp
    have hcut' : pre ++ (Cut.tokens (c :: cuts) ++ tail) =
        (pre ++ c.kept ++ c.argument) ++ (Cut.tokens cuts ++ tail) := by
      simp
    have hhead := alphaEdit_eq (hcut ▸ hlaid) (hcuts c (by simp)) parameter
    have hrest := ih (hcut' ▸ hlaid) fun d hd => hcuts d (by simp [hd])
    rw [← hcut] at hhead
    rw [← hcut'] at hrest
    rw [List.map_cons, List.map_cons, List.map_cons, Swap.edits, hhead, hrest]
    simp [Cut.swap, Nat.add_assoc]

end ShaderLoom.Morph
