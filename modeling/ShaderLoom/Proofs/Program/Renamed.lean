/-
  ShaderLoom.Proofs.Program.Renamed — what the name of a configuration does to the tokens of its source.

  The name stands in the second line comment of the header. Its first line is read as comment and
  the rest of it is not: from its first line end on it comes into the source, together with the
  parenthesis that was to close it (`spill`). Below the header no comment is closed, so the spill
  ends where the header does and the tokens behind it are the same for every name
  (`tokens_renamed`). Two names leave the same tokens exactly when they spill the same
  (`compose_renamed`), and a name of one line spills nothing (`spill_of_line`).
-/

import Mathlib.Data.List.TakeWhile
import ShaderLoom.Proofs.Program.Harmless
import ShaderLoom.Proofs.Program.Layout
import ShaderLoom.Proofs.Program.Rendered

namespace ShaderLoom.Program

open ShaderLoom.Lexeme ShaderLoom.Outcome

/-- The kinds and texts of the tokens that are neither comments nor blanks. -/
def tokens (source : String) : List Lexeme := (Token.significant (Token.tokenize source)).map Token.lexeme

/-- What a name leaves in the source: the tokens from its first line end on, with the parenthesis
behind it. -/
def spill (name : String) : List Lexeme :=
  match name.toList.dropWhile (· != '\n') with
  | [] => []
  | rest => significant (rest ++ [')'])

theorem spill_of_line {name : String} (h : '\n' ∉ name.toList) : spill name = [] := by
  have hnone : name.toList.dropWhile (· != '\n') = [] :=
    List.dropWhile_eq_nil_iff.mpr fun c hc => bne_iff_ne.mpr fun heq => h (heq ▸ hc)
  rw [spill, hnone]

/-- A name with a line end is its first line, the line end and the rest. -/
theorem exists_lines {name : String} (h : '\n' ∈ name.toList) :
    ∃ a r, name.toList = a ++ '\n' :: r ∧ (∀ c ∈ a, c ≠ '\n') ∧ spill name = significant ('\n' :: r ++ [')']) := by
  have hsplit : name.toList.takeWhile (· != '\n') ++ name.toList.dropWhile (· != '\n') = name.toList :=
    List.takeWhile_append_dropWhile
  obtain ⟨hline, hstart⟩ := takeWhile_append_eq_left.mp (congrArg (List.takeWhile (· != '\n')) hsplit)
  cases hrest : name.toList.dropWhile (· != '\n') with
  | nil => exact absurd (List.dropWhile_eq_nil_iff.mp hrest _ h) (by decide)
  | cons d r =>
    rw [hrest] at hsplit hstart
    obtain rfl : d = '\n' := by simpa using hstart
    exact ⟨_, r, hsplit.symm, fun c hc => bne_iff_ne.mp (hline c hc), by rw [spill, hrest]⟩

/-- A header and what stands on the lines below it: nothing is left of the header but the spill. -/
theorem significant_header {c : ShaderConfig} (htag : '\n' ∉ c.effectTag.toList) {v : List Char} (hv : ¬Closes v) :
    significant ((headerPart c).toList ++ '\n' :: v) = spill c.name.text ++ significant v := by
  by_cases hname : '\n' ∈ c.name.text.toList
  · obtain ⟨a, b, htext, ha, hb⟩ := toList_headerPart htag
    obtain ⟨p, r, hname, hp, hspill⟩ := exists_lines hname
    have hcut : (headerPart c).toList ++ '\n' :: v =
        '/' :: '/' :: (a ++ '\n' :: '/' :: '/' :: ((b ++ p) ++ (('\n' :: r ++ [')']) ++ '\n' :: v))) := by
      rw [htext, hname]
      simp only [List.append_assoc, List.cons_append]
    have hparted : Parted ('\n' :: r ++ [')']) ('\n' :: v) := by
      refine parted_line (fun d hd => ?_) hv
      rw [List.getLast?_concat] at hd
      exact Option.some.inj hd ▸ rfl
    rw [hcut, significant_lineComment ha (v := '\n' :: _) rfl, significant_blank (by decide),
      significant_lineComment (List.forall_mem_append.mpr ⟨hb, hp⟩) (v := '\n' :: r ++ [')'] ++ '\n' :: v) rfl,
      hparted.significant, significant_blank (by decide) v, hspill]
  · obtain ⟨hparted, hnone⟩ := header_spec htag hname
    rw [(hparted v).significant, hnone, spill_of_line hname, significant_blank (by decide)]

variable {c : ShaderConfig} {source : String}

/-- Under any other name that can be written out there is a source too, and it has the same tokens
behind those of the name. -/
theorem tokens_renamed (hv : c.verdict = .passed) (hs : compose c = .ok source) {name : Value}
    (hname : name.isPrintable = true) :
    ∃ renamed shared, compose { c with name := name } = .ok renamed ∧
      tokens source = spill c.name.text ++ shared ∧ tokens renamed = spill name.text ++ shared := by
  obtain ⟨entries, hentries, hc⟩ := Shape.judge_eq_passed_iff.mp hv
  cases hentries
  have haccepted := ShaderConfig.accepted_of_config hc
  obtain ⟨effect, heffect⟩ := haccepted.effect
  obtain ⟨noise, hnoise⟩ := haccepted.noise
  obtain ⟨tail, htail, rfl⟩ := (compose_below_iff heffect haccepted.name_printable hnoise).mp hs
  obtain ⟨v, hline, hcloses⟩ := exists_tail (identifier_of_config hc) htail
  have hrenamed : compose { c with name := name } = .ok (headerPart { c with name := name } ++ tail) :=
    (compose_below_iff (c := { c with name := name }) heffect hname hnoise).mpr ⟨tail, htail, rfl⟩
  have htokens : ∀ name, tokens (headerPart { c with name := name } ++ tail) = spill name.text ++ significant v := by
    intro name
    rw [tokens, significant_tokens, String.toList_append, hline]
    have htag : '\n' ∉ c.effectTag.toList := tag_of_config hc
    exact significant_header (c := { c with name := name }) htag hcloses
  exact ⟨_, significant v, hrenamed, htokens c.name, htokens name⟩

/-- Replacing the name of an accepted configuration keeps the tokens exactly when both names spill
the same, and always when both stand on one line. A name that cannot be written out leaves no
source. -/
theorem compose_renamed (hv : c.verdict = .passed) (hs : compose c = .ok source) (name : Value) :
    (name.isPrintable = true ∧ ∃ renamed shared, compose { c with name := name } = .ok renamed ∧
      tokens source = spill c.name.text ++ shared ∧ tokens renamed = spill name.text ++ shared ∧
      (tokens renamed = tokens source ↔ spill name.text = spill c.name.text) ∧
      ('\n' ∉ c.name.text.toList → '\n' ∉ name.text.toList → tokens renamed = tokens source)) ∨
    (name.isPrintable = false ∧ compose { c with name := name } = .error .unprintable) := by
  cases hname : name.isPrintable with
  | true =>
    obtain ⟨renamed, shared, hrenamed, hsource, htokens⟩ := tokens_renamed hv hs hname
    refine Or.inl ⟨rfl, renamed, shared, hrenamed, hsource, htokens, ?_, fun hold hnew => ?_⟩
    · rw [htokens, hsource, List.append_cancel_right_eq]
    · rw [htokens, hsource, spill_of_line hold, spill_of_line hnew]
  | false =>
    obtain ⟨effect, noise, main, heffect, -⟩ := compose_eq_ok_iff.mp hs
    exact Or.inr ⟨rfl, compose_of_unprintable (c := { c with name := name }) heffect hname⟩

theorem finiteNumbers_composes : (compose finiteNumbers).toBool = true := by decide +kernel

theorem finiteNumbers_renamed :
    finiteNumbers.verdict = .passed ∧ '\n' ∉ finiteNumbers.name.text.toList ∧ '\n' ∉ "*/ main //".toList ∧
      ∃ source renamed, compose finiteNumbers = .ok source ∧
        compose { finiteNumbers with name := .str "*/ main //" } = .ok renamed ∧ tokens renamed = tokens source := by
  have hv : finiteNumbers.verdict = .passed := by decide +kernel
  have hold : '\n' ∉ finiteNumbers.name.text.toList := by decide
  have hnew : '\n' ∉ "*/ main //".toList := by decide
  obtain ⟨source, hs⟩ := exists_ok finiteNumbers_composes
  rcases compose_renamed hv hs (.str "*/ main //") with ⟨-, renamed, -, hrenamed, -, -, -, hsame⟩ | ⟨hlong, -⟩
  · exact ⟨hv, hold, hnew, source, renamed, hs, hrenamed, hsame hold hnew⟩
  · cases hlong

/-- The second line of an accepted name comes into the source, and its parenthesis with it. -/
theorem second_line_spilled :
    finiteNumbers.verdict = .passed ∧ ({ finiteNumbers with name := .str "A\nB" } : ShaderConfig).verdict = .passed ∧
      ∃ source renamed, compose finiteNumbers = .ok source ∧
        compose { finiteNumbers with name := .str "A\nB" } = .ok renamed ∧
        tokens renamed = [(.name, ['B']), (.mark, [')'])] ++ tokens source ∧ tokens renamed ≠ tokens source := by
  have hv : finiteNumbers.verdict = .passed := by decide +kernel
  have hspill : spill "A\nB" = [(.name, ['B']), (.mark, [')'])] := by decide
  have hnone : spill finiteNumbers.name.text = [] := spill_of_line (by decide)
  obtain ⟨source, hs⟩ := exists_ok finiteNumbers_composes
  have hname : (Value.str "A\nB").isPrintable = true := rfl
  obtain ⟨renamed, shared, hrenamed, hsource, htokens⟩ := tokens_renamed hv hs hname
  have hdiffer : tokens renamed = [(.name, ['B']), (.mark, [')'])] ++ tokens source := by
    rw [htokens, hsource, hnone, ← hspill]
    rfl
  refine ⟨hv, by decide +kernel, source, renamed, hs, hrenamed, hdiffer, fun heq => ?_⟩
  exact absurd (List.append_left_eq_self.mp (hdiffer.symm.trans heq)) (List.cons_ne_nil _ _)

end ShaderLoom.Program
