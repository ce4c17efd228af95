/-
  ShaderLoom.Proofs.Program.Entry — the entry point of a source.

  An entry point is its heading, a row of whole statements and the final return. Whatever numbers
  there are in it, the statements open no block and return nothing (`exists_body`).
-/

import ShaderLoom.Proofs.Program.Composed
import ShaderLoom.Proofs.Program.Fragments

namespace ShaderLoom.Program

open ShaderLoom.Lexeme ShaderLoom.Morph ShaderLoom.Text ShaderLoom.Outcome

/-- A line with the line end before it. -/
def below (line : String) : List Char := '\n' :: line.toList

theorem toList_lines (l : String) (ls : List String) : (lines (l :: ls)).toList = l.toList ++ ls.flatMap below := by
  induction ls generalizing l with
  | nil => simp [lines]
  | cons m ls ih => rw [lines_cons_cons, ih, List.flatMap_cons, below, List.cons_append]

/-! ## Statements with numbers -/

theorem exists_literal {v : Value} {decimals : Option Int} {s : String} (h : Literal.ofValue v decimals = .ok s) :
    ∃ x, s = Literal.ofNumber x decimals := by
  obtain ⟨x, -, h⟩ := bind_eq_ok.mp h
  obtain ⟨-, -, h⟩ := bind_eq_ok.mp h
  exact ⟨x, (Except.ok.inj h).symm⟩

theorem quiet_semicolon : Quiet [';'] := quiet_of_isQuietText (by decide)

/-- The time is the clock times a literal, and a literal more if there is an offset. -/
theorem timeStatement_eq_ok {t : Timing} {s : String} (h : timeStatement t = .ok s) :
    ∃ x offset, s = "  float time = u_time * " ++ Literal.ofNumber x none ++ offset ++ ";" ∧
      (offset = "" ∨ ∃ y, offset = " + " ++ Literal.ofNumber y none) := by
  obtain ⟨scale, hscale, h⟩ := bind_eq_ok.mp h
  obtain ⟨x, rfl⟩ := exists_literal hscale
  by_cases hzero : t.offset.isTrue = true
  · simp only [hzero, if_true] at h
    obtain ⟨offset, hoffset, h⟩ := bind_eq_ok.mp h
    cases hliteral : Literal.ofValue t.offset none with
    | error fault =>
      rw [hliteral] at hoffset
      cases hoffset
    | ok literal =>
      rw [hliteral] at hoffset
      cases hoffset
      obtain ⟨y, rfl⟩ := exists_literal hliteral
      exact ⟨x, _, (Except.ok.inj h).symm, Or.inr ⟨y, rfl⟩⟩
  · simp only [hzero] at h
    exact ⟨x, "", (Except.ok.inj h).symm, Or.inl rfl⟩

theorem quiet_time {t : Timing} {s : String} (h : timeStatement t = .ok s) : Quiet ('\n' :: below s) := by
  obtain ⟨x, offset, rfl, hoffset⟩ := timeStatement_eq_ok h
  have hopening : isOpening ('\n' :: '\n' :: "  float time = u_time * ".toList) = true :=
    of_chars (P := fun cs => isOpening ('\n' :: '\n' :: cs) = true) ⟨_, String.toList_ofList, by decide⟩
  have hsemicolon : ";".toList = [';'] := String.toList_ofList
  have happend : ∀ a b c d : String, below (a ++ b ++ c ++ d) = '\n' :: (a.toList ++ (b.toList ++ (c.toList ++ d.toList))) := by
    intros
    simp only [below, String.toList_append, List.append_assoc]
  rw [happend, hsemicolon]
  rcases hoffset with rfl | ⟨y, rfl⟩
  · exact quiet_literal x none hopening (by decide) (by decide) quiet_semicolon
  · have hplus : " + ".toList = [' ', '+', ' '] := String.toList_ofList
    rw [String.toList_append, hplus, List.append_assoc]
    have hrest := quiet_literal y none (a := [' ', '+', ' ']) (by decide) (by decide) (by decide) quiet_semicolon
    exact quiet_literal x none hopening (by decide) (by decide) hrest

theorem quiet_scale {params : Entries Value} {ls : List String} (h : patternScale params = .ok ls) :
    ls = [] ∨ ∃ s, ls = [s] ∧ Quiet (below s) := by
  have hopening : isOpening ('\n' :: "  uv *= ".toList) = true :=
    of_chars (P := fun cs => isOpening ('\n' :: cs) = true) ⟨_, String.toList_ofList, by decide⟩
  have hsemicolon : ";".toList = [';'] := String.toList_ofList
  have happend : ∀ a b c : String, below (a ++ b ++ c) = '\n' :: (a.toList ++ (b.toList ++ c.toList)) := by
    intros
    simp only [below, String.toList_append, List.append_assoc]
  have hstatement : ∀ {v : Value}, (do return ["  uv *= " ++ (← Literal.ofValue v none) ++ ";"]) = Except.ok ls →
      ∃ s, ls = [s] ∧ Quiet (below s) := by
    intro v hv
    obtain ⟨s, hs, hv⟩ := bind_eq_ok.mp hv
    obtain ⟨x, rfl⟩ := exists_literal hs
    cases hv
    refine ⟨_, rfl, ?_⟩
    rw [happend, hsemicolon]
    exact quiet_literal x none hopening (by decide) (by decide) quiet_semicolon
  unfold patternScale at h
  split at h
  · exact Or.inr (hstatement h)
  · exact Or.inr (hstatement h)
  · exact Or.inl (Except.ok.inj h).symm

theorem vignette_eq_ok {v : Vignette} {s : String} (h : v.source = .ok s) : ∃ a b c d, s = lines [
    "  // Vignette",
    "  float2 vignetteUV = xy / u_resolution;",
    "  float vignette = 1.0 - length((vignetteUV - 0.5) * " ++ Literal.ofNumber a (some 1) ++ ");",
    "  vignette = smoothstep(0.0, " ++ Literal.ofNumber b (some 1) ++ ", vignette);",
    "  color *= half(" ++ Literal.ofNumber c (some 2) ++ " + " ++ Literal.ofNumber d (some 2) ++ " * vignette);"] := by
  obtain ⟨strength, hstrength, h⟩ := bind_eq_ok.mp h
  obtain ⟨smoothness, hsmoothness, h⟩ := bind_eq_ok.mp h
  obtain ⟨base, hbase, h⟩ := bind_eq_ok.mp h
  obtain ⟨boost, hboost, h⟩ := bind_eq_ok.mp h
  obtain ⟨a, rfl⟩ := exists_literal hstrength
  obtain ⟨b, rfl⟩ := exists_literal hsmoothness
  obtain ⟨c, rfl⟩ := exists_literal hbase
  obtain ⟨d, rfl⟩ := exists_literal hboost
  exact ⟨a, b, c, d, (Except.ok.inj h).symm⟩

theorem quiet_vignette {v : Vignette} {s : String} (h : v.source = .ok s) : Quiet ('\n' :: below s) := by
  obtain ⟨a, b, c, d, rfl⟩ := vignette_eq_ok h
  have happend : ∀ p q r r' s s' t t' t'' a b c d : String,
      below (lines [p, q, r ++ a ++ r', s ++ b ++ s', t ++ c ++ t' ++ d ++ t'']) =
        '\n' :: (p.toList ++ '\n' :: (q.toList ++ '\n' :: r.toList)) ++ (a.toList ++
          (r'.toList ++ '\n' :: s.toList ++ (b.toList ++ (s'.toList ++ '\n' :: t.toList ++ (c.toList ++
            (t'.toList ++ (d.toList ++ t''.toList))))))) := by
    intros
    simp only [below, toList_lines, String.toList_append, List.flatMap_cons, List.flatMap_nil, List.append_assoc,
      List.cons_append, List.append_nil]
  rw [happend]
  obtain ⟨p, q, r, hp, hq, hr, hopening⟩ : ∃ p q r, "  // Vignette".toList = p ∧
      "  float2 vignetteUV = xy / u_resolution;".toList = q ∧
      "  float vignette = 1.0 - length((vignetteUV - 0.5) * ".toList = r ∧
      isOpening ('\n' :: '\n' :: (p ++ '\n' :: (q ++ '\n' :: r))) = true :=
    ⟨_, _, _, String.toList_ofList, String.toList_ofList, String.toList_ofList, by decide⟩
  obtain ⟨s, hs, hsmoothness⟩ : ∃ s, "  vignette = smoothstep(0.0, ".toList = s ∧
      isOpening (')' :: ';' :: '\n' :: s) = true :=
    ⟨_, String.toList_ofList, by decide⟩
  obtain ⟨s', t, hs', ht, hbase⟩ : ∃ s' t, ", vignette);".toList = ',' :: s' ∧ "  color *= half(".toList = t ∧
      isOpening (',' :: s' ++ '\n' :: t) = true :=
    ⟨_, _, String.toList_ofList, String.toList_ofList, by decide⟩
  obtain ⟨t'', ht'', hend⟩ : ∃ t'', " * vignette);".toList = ' ' :: t'' ∧ isQuietText (' ' :: t'') = true :=
    ⟨_, String.toList_ofList, by decide⟩
  have hr' : ");".toList = [')', ';'] := String.toList_ofList
  have hplus : " + ".toList = [' ', '+', ' '] := String.toList_ofList
  have hboost := quiet_literal d (some 2) (a := [' ', '+', ' ']) (by decide) (by decide) (by decide)
    (quiet_of_isQuietText hend)
  rw [hp, hq, hr, hr', hs, hs', ht, hplus, ht'']
  exact quiet_literal a (some 1) hopening (by decide) (by decide)
    (quiet_literal b (some 1) hsmoothness (by decide) (by decide)
      (quiet_literal c (some 2) hbase (by decide) (by decide) hboost))

/-! ## The entry point as a whole -/

/-- `half4 main(float2 xy) \x7b` -/
def heading : String := "half4 main(float2 xy) \x7b"

/-- What every entry point sets up first. -/
def setup : List String := [
  "  float2 uv = xy / u_resolution;",
  "  float aspect = u_resolution.x / u_resolution.y;",
  "  uv.x *= aspect;"]

theorem quiet_setup : Quiet (setup.flatMap below) := by
  obtain ⟨p, q, r, hp, hq, hr, h⟩ : ∃ p q r, "  float2 uv = xy / u_resolution;".toList = p ∧
      "  float aspect = u_resolution.x / u_resolution.y;".toList = q ∧ "  uv.x *= aspect;".toList = r ∧
      isQuietText ('\n' :: (p ++ '\n' :: (q ++ '\n' :: r))) = true :=
    ⟨_, _, _, String.toList_ofList, String.toList_ofList, String.toList_ofList, by decide⟩
  have hsetup : setup.flatMap below = '\n' :: (p ++ '\n' :: (q ++ '\n' :: r)) := by
    rw [← hp, ← hq, ← hr, setup]
    simp only [List.flatMap_cons, List.flatMap_nil, below, List.append_nil, List.cons_append]
  rw [hsetup]
  exact quiet_of_isQuietText h

/-- The heading, whole statements, and the final return. -/
theorem exists_body {c : ShaderConfig} {effect : EffectKind} {main : String}
    (h : entryPoint c effect.effect = .ok main) : ∃ body, Quiet body ∧
      main.toList = heading.toList ++ (body ++ '\n' :: '\n' :: ("  return half4(color, 1.0);".toList ++ ['\n', '\x7d'])) := by
  obtain ⟨time, htime, h⟩ := bind_eq_ok.mp h
  obtain ⟨scale, hscale, h⟩ := bind_eq_ok.mp h
  obtain ⟨vignette, hvignette, h⟩ := bind_eq_ok.mp h
  have hmain := Except.ok.inj h
  have hquiet := (body_main effect).quiet.append (quiet_vignette hvignette)
  have hscaled : Quiet (scale.flatMap below ++ ('\n' :: '\n' :: effect.effect.main.toList ++ ('\n' :: below vignette))) := by
    rcases quiet_scale hscale with rfl | ⟨s, rfl, hs⟩
    · exact hquiet
    · rw [List.flatMap_singleton]
      exact hs.append hquiet
  refine ⟨_, quiet_setup.append ((quiet_time htime).append hscaled), ?_⟩
  have hempty : below "" = ['\n'] := rfl
  have hclosing : below "\x7d" = ['\n', '\x7d'] := congrArg _ String.toList_ofList
  have hlines : main = lines (heading :: (setup ++ "" :: time :: (scale ++ ["", effect.effect.main, "", vignette, "",
      "  return half4(color, 1.0);", "\x7d"]))) := by
    rw [← hmain]
    simp only [setup, List.cons_append, List.nil_append]
    rfl
  rw [hlines, toList_lines]
  simp only [List.flatMap_append, List.flatMap_cons, List.flatMap_nil, hempty, hclosing, List.append_assoc,
    List.cons_append, List.nil_append, List.append_nil]
  rfl

end ShaderLoom.Program
