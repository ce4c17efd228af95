/-
  ShaderLoom.Proofs.Schema.Told — verdicts in words.

  Of a problem nothing is said only where the words would show a value that cannot be written out
  (`unprintable_of_said`), and then nothing is told of the whole value (`validate_cases`). So
  validation either reports every problem where it lies, or fails over such a value
  (`validate_outcome`). A name is either text or told as what is wrong, so behind a verdict that is
  told it can be written out (`printable_name`). For the verdict on a configuration the tags have to be
  written out too (`ShaderConfig.validate_cases`).
-/

import ShaderLoom.Config.Basic
import ShaderLoom.Proofs.Outcome
import ShaderLoom.Proofs.Schema.Located

namespace ShaderLoom

open Schema

theorem unprintable_of_said {v w : Value} {path : List PathPart} {m : Option String} (h : Said v path w m)
    (hm : m = none) : w.isPrintable = false := by
  cases h with
  | notAMapping => cases hm
  | reported _ _ hreport =>
    cases hreport with
    | itself hfinding => exact hfinding.unprintable hm
    | name _ _ hfinding => exact absurd (hfinding.unprintable hm) (by simp)

/-- A verdict is told exactly when each of its problems has words. -/
theorem validate_eq_ok_iff {v : Value} {verdict : Verdict} :
    validate v = .ok verdict ↔ judge v = verdict ∧ ∀ p ∈ (judge v).problems, p.message.isSome = true := by
  rw [validate, ← List.all_eq_true]
  split
  · exact ⟨fun h => ⟨Except.ok.inj h, ‹_›⟩, fun h => congrArg Except.ok h.1⟩
  · exact ⟨fun h => (nomatch h), fun h => absurd h.2 ‹_›⟩

theorem validate_of_passed {v : Value} (h : judge v = .passed) : validate v = .ok .passed :=
  validate_eq_ok_iff.mpr ⟨h, h ▸ fun _ hp => absurd hp List.not_mem_nil⟩

theorem validate_of_wordless {v : Value} {p : Problem} (hp : p ∈ (judge v).problems) (hm : p.message = none) :
    validate v = .error .unprintable := by
  refine if_neg fun hall => ?_
  have hsome := List.all_eq_true.mp hall p hp
  rw [hm] at hsome
  cases hsome

theorem validate_cases (v : Value) : (validate v = .ok (judge v) ∧ ∀ p ∈ (judge v).problems, p.message.isSome = true) ∨
    (validate v = .error .unprintable ∧ ∃ p ∈ (judge v).problems, p.message = none) := by
  by_cases hall : ∀ p ∈ (judge v).problems, p.message.isSome = true
  · exact Or.inl ⟨validate_eq_ok_iff.mpr ⟨rfl, hall⟩, hall⟩
  · obtain ⟨p, hp, hm⟩ : ∃ p ∈ (judge v).problems, p.message = none := by simpa using hall
    exact Or.inr ⟨validate_of_wordless hp hm, p, hp, hm⟩

/-- What validating a mapping comes to. -/
theorem validate_map_cases (entries : Entries Value) :
    (∃ problems, validate (.map entries) = .ok (.failed problems)) ∨ validate (.map entries) = .ok .passed ∨
      (validate (.map entries) = .error .unprintable ∧ ∃ p ∈ (judge (.map entries)).problems, p.message = none) := by
  rcases validate_cases (.map entries) with ⟨htold, -⟩ | huntold
  · rw [judge_map_eq] at htold
    split at htold
    · exact Or.inr (Or.inl htold)
    · exact Or.inl ⟨_, htold⟩
  · exact Or.inr (Or.inr huntold)

/-- Of a value without repeated keys either every problem is told: there are none exactly when it
passes, they come in the order of the texts of their paths, and they are what is said, in words, of the
values that their paths lead to. Or the words for one of them would show a value that cannot be written
out, and nothing is told. -/
theorem validate_outcome {v : Value} (hk : v.isKeyed = true) :
    (∃ verdict, validate v = .ok verdict ∧ (verdict.problems = [] ↔ verdict.ok = true) ∧
      verdict.problems.Pairwise (fun p q => ¬List.Lex (· < ·) q.pathTexts p.pathTexts) ∧
      (∀ p ∈ verdict.problems, p.message.isSome = true) ∧
      ∀ p, p ∈ verdict.problems ↔ ∃ w, v.follow? p.path = some w ∧ Said v p.path w p.message) ∨
    (validate v = .error .unprintable ∧
      ∃ path w, v.follow? path = some w ∧ Said v path w none ∧ w.isPrintable = false) := by
  obtain ⟨hok, hordered, hsaid⟩ := judge_problems hk
  rcases validate_cases v with ⟨htold, hwords⟩ | ⟨herror, ⟨m, path⟩, hp, hm⟩
  · exact Or.inl ⟨judge v, htold, hok, hordered, hwords, hsaid⟩
  · cases hm
    obtain ⟨w, hw, hword⟩ := (hsaid _).mp hp
    exact Or.inr ⟨herror, path, w, hw, hword, unprintable_of_said hword rfl⟩

/-- A color under a name that is none, with a part missing and a part too great. -/
def brokenColor : Value := .map [("palette", .map [("colors", .map [("1a", .list [.int 0, .int 2])])])]

theorem brokenColor_told : brokenColor.isKeyed = true ∧ ∃ verdict, validate brokenColor = .ok verdict ∧
    ⟨some "2 is greater than the maximum of 1.0", [.key "palette", .key "colors", .key "1a", .index 1]⟩ ∈ verdict.problems ∧
    Said brokenColor [.key "palette", .key "colors", .key "1a", .index 1] (.int 2)
      (some "2 is greater than the maximum of 1.0") ∧
    ⟨some "'1a' does not match '^[A-Za-z_][A-Za-z0-9_]*$'", [.key "palette", .key "colors"]⟩ ∈ verdict.problems ∧
    Said brokenColor [.key "palette", .key "colors"] (.map [("1a", .list [.int 0, .int 2])])
      (some "'1a' does not match '^[A-Za-z_][A-Za-z0-9_]*$'") := by
  have hfixed : brokenColor.isKeyed = true ∧
      (problems (.rules config.body) brokenColor).all (·.message.isSome) = true ∧
      ⟨some "2 is greater than the maximum of 1.0", [.key "palette", .key "colors", .key "1a", .index 1]⟩ ∈
        problems (.rules config.body) brokenColor ∧
      ⟨some "'1a' does not match '^[A-Za-z_][A-Za-z0-9_]*$'", [.key "palette", .key "colors"]⟩ ∈
        problems (.rules config.body) brokenColor := by
    decide +kernel
  obtain ⟨hk, hwords, hchannel, hname⟩ := hfixed
  rcases validate_outcome hk with ⟨verdict, hverdict, -, -, -, hsaid⟩ | ⟨herror, -⟩
  · obtain ⟨rfl, -⟩ := validate_eq_ok_iff.mp hverdict
    have hlocated : ∀ p w, p ∈ (judge brokenColor).problems → brokenColor.follow? p.path = some w →
        Said brokenColor p.path w p.message := by
      intro p w hp hw
      obtain ⟨u, hu, hword⟩ := (hsaid p).mp hp
      rwa [Option.some.inj (hw.symm.trans hu)]
    have hchannel := mem_judge_map.mpr hchannel
    have hname := mem_judge_map.mpr hname
    exact ⟨hk, _, hverdict, hchannel, hlocated _ _ hchannel rfl, hname, hlocated _ _ hname rfl⟩
  · have hok := validate_eq_ok_iff.mpr
      ⟨rfl, fun p hp => List.all_eq_true.mp hwords p (mem_judge_map.mp hp)⟩
    cases hok.symm.trans herror

/-- A name that cannot be written out is no text, and there are no words for that. -/
theorem wordless_name {entries : Entries Value} {u : Value} (h : Entries.get? "name" entries = some u)
    (hu : u.isPrintable = false) : ⟨none, [.key "name"]⟩ ∈ problems (.rules config.body) (.map entries) := by
  have hfinding : Finding [] (.kinds [.text]) u none := by
    have htext : ∀ k ∈ [ValueKind.text], k.admits u = false := by
      intro k hk
      rw [List.mem_singleton.mp hk]
      cases u with
      | str s => cases hu
      | _ => rfl
    have hkinds : Finding [] _ u _ := .kinds htext
    rwa [Value.inspect?_eq_none_iff.mpr hu] at hkinds
  have hgoverns : Governs (.rules config.body) (.map entries) [.key "name"] [.kinds [.text], .shortest 1] u :=
    .part (List.mem_cons_of_mem _ (List.mem_cons_of_mem _ List.mem_cons_self))
      (.field (List.mem_cons_of_mem _ List.mem_cons_self) h) .here
  exact mem_problems_iff.mpr ⟨_, _, hgoverns, _, List.mem_cons_self, .itself hfinding⟩

/-- A name that is a number too long to be written out is a problem that nothing is told of. -/
theorem longName_not_told : (Value.map [("name", .int Value.longNumber)]).isKeyed = true ∧
    (judge (.map [("name", .int Value.longNumber)])).ok = false ∧
    validate (.map [("name", .int Value.longNumber)]) = .error .unprintable := by
  have hname : Entries.get? "name" [("name", Value.int Value.longNumber)] = some (.int Value.longNumber) := rfl
  have hproblem := mem_judge_map.mpr (wordless_name hname Value.longNumber_unprintable)
  refine ⟨rfl, ?_, validate_of_wordless hproblem rfl⟩
  exact Bool.eq_false_iff.mpr fun hok => List.not_mem_nil ((judge_problems rfl).1.mpr hok ▸ hproblem)

/-- Where a verdict is told, the name can be. -/
theorem printable_name {entries : Entries Value} {verdict : Verdict} (h : validate (.map entries) = .ok verdict) :
    ((Entries.get? "name" entries).getD .null).isPrintable = true := by
  cases hname : Entries.get? "name" entries with
  | none => rfl
  | some u =>
    cases hu : u.isPrintable with
    | true => exact hu
    | false =>
      have hwords := (validate_eq_ok_iff.mp h).2 _ (mem_judge_map.mpr (wordless_name hname hu))
      cases hwords

/-! ## Configurations -/

namespace ShaderConfig

variable {c : ShaderConfig} {verdict : Verdict}

theorem told_iff : c.validate = .ok verdict ↔
    c.noise.isPrintable = true ∧ c.effect.isPrintable = true ∧ ShaderLoom.validate c.toValue = .ok verdict := by
  rw [← Value.checkPrintable_eq_ok_iff, ← Value.checkPrintable_eq_ok_iff, validate, Outcome.bind_eq_ok]
  constructor
  · intro ⟨_, hnoise, h⟩
    obtain ⟨_, heffect, h⟩ := Outcome.bind_eq_ok.mp h
    exact ⟨hnoise, heffect, h⟩
  · intro ⟨hnoise, heffect, h⟩
    exact ⟨_, hnoise, Outcome.bind_eq_ok.mpr ⟨_, heffect, h⟩⟩

/-- Behind a verdict that is told there is a name that can be written out. -/
theorem name_of_validate (h : c.validate = .ok verdict) : c.name.isPrintable = true :=
  printable_name (told_iff.mp h).2.2

/-- There are no words for the verdict, as a tag or what a problem would show cannot be written out. -/
def Wordless (c : ShaderConfig) : Prop :=
  c.noise.isPrintable = false ∨ c.effect.isPrintable = false ∨ ∃ p ∈ c.verdict.problems, p.message = none

/-- What validating a configuration comes to. -/
theorem validate_cases (c : ShaderConfig) : (∃ problems, c.validate = .ok (.failed problems)) ∨
    c.validate = .ok .passed ∨ (c.validate = .error .unprintable ∧ c.Wordless) := by
  cases hnoise : c.noise.isPrintable with
  | false => exact Or.inr (Or.inr ⟨by rw [validate, Value.checkPrintable_of_not hnoise]; rfl, Or.inl hnoise⟩)
  | true =>
    have hvalidate : c.validate = c.effect.checkPrintable >>= fun _ => ShaderLoom.validate c.toValue := by
      rw [validate, Value.checkPrintable_eq_ok_iff.mpr hnoise]
      rfl
    rw [hvalidate]
    cases heffect : c.effect.isPrintable with
    | false => exact Or.inr (Or.inr ⟨by rw [Value.checkPrintable_of_not heffect]; rfl, Or.inr (Or.inl heffect)⟩)
    | true =>
      rw [Value.checkPrintable_eq_ok_iff.mpr heffect]
      rcases validate_map_cases c.toEntries with hfailed | hpassed | ⟨herror, hproblem⟩
      · exact Or.inl hfailed
      · exact Or.inr (Or.inl hpassed)
      · exact Or.inr (Or.inr ⟨herror, Or.inr (Or.inr hproblem)⟩)

end ShaderConfig

end ShaderLoom
