/-
  ShaderLoom.Proofs.Config.Respelled — what is read from a mapping against the spelling and order of its keys.

  Decoding looks fields up by their keys, and the schema of a configuration has no rule at its top that
  goes through the fields in the order of the mapping, so neither sees in which order respelled entries
  stand (`decode_of_perm`, `configProblems_of_perm`). Two mappings that have the same entries under
  respelled keys come out the same: as one configuration, or as one fault with one list of problems
  (`ofValue_respelled`). Such a fault is the schema's, but for an integer too large for a float or too
  long to be told of.
-/

import ShaderLoom.Proofs.Config.Converted
import ShaderLoom.Proofs.Schema.KeyOrder

namespace ShaderLoom

namespace Schema

variable {a c : Entries Value}

/-- Listed fields are looked up one by one, in the order of the list. -/
theorem problemsOfFields_of_perm (h : (Entries.keys a).Nodup) (hperm : a.Perm c) (fields : List (String × Schema)) :
    problemsOfFields fields a = problemsOfFields fields c := by
  induction fields with
  | nil => rfl
  | cons field rest ih =>
    obtain ⟨name, s⟩ := field
    rw [problemsOfFields, problemsOfFields, ih, Entries.get?_of_perm h hperm]

end Schema

/-- The rules at the top of a configuration's schema, told in their order. -/
theorem configProblems_of_perm {a c : Entries Value} (h : (Entries.keys a).Nodup) (hperm : a.Perm c) :
    configProblems a = configProblems c := by
  have hkeys : (Entries.keys a).Perm (Entries.keys c) := hperm.map Prod.fst
  rw [configProblems, configProblems, Schema.problems, Schema.problems, Schema.config]
  simp only [Schema.problemsOfRules, Schema.problemsOfRule, Schema.kindProblem]
  rw [Schema.missingProblems_of_keys hkeys, Schema.problemsOfFields_of_perm h hperm, Schema.closedProblem_of_keys hkeys]
  rfl

theorem validate_of_perm {a c : Entries Value} (h : (Entries.keys a).Nodup) (hperm : a.Perm c) :
    validate (.map a) = validate (.map c) := by
  rw [validate, validate, judge_map_eq, judge_map_eq, configProblems_of_perm h hperm]

namespace ShaderConfig

variable {a c d d' : Entries Value}

theorem field_of_perm (h : (Entries.keys a).Nodup) (hperm : a.Perm c) (key : String) : field key a = field key c := by
  rw [field, field, Entries.get?_of_perm h hperm]

theorem fieldOr_of_perm (h : (Entries.keys a).Nodup) (hperm : a.Perm c) (key : String) (standard : Value) :
    fieldOr key standard a = fieldOr key standard c := by
  rw [fieldOr, fieldOr, Entries.get?_of_perm h hperm]

theorem decode_of_perm (h : (Entries.keys a).Nodup) (hperm : a.Perm c) : decode a = decode c := by
  simp only [decode, field_of_perm h hperm, fieldOr_of_perm h hperm]

theorem ofNormalized_of_perm (h : (Entries.keys a).Nodup) (hperm : a.Perm c) : ofNormalized a = ofNormalized c := by
  rw [ofNormalized, ofNormalized, validate_of_perm h hperm, decode_of_perm h hperm]
  simp only [field_of_perm h hperm]

theorem nodup_keys_respelled (d : Entries Value) : (Entries.keys (respelled d)).Nodup := Entries.nodup_keys_ofPairs _

theorem ofValue_of_perm (h : (respelled d).Perm (respelled d')) : ofValue (.map d') = ofValue (.map d) :=
  (ofNormalized_of_perm (nodup_keys_respelled d) h).symm

/-- Mappings that have the same entries under respelled keys, in any order, come out the same: as one
configuration; as one fault with the problems that the schema finds; where the schema accepts them,
as the fault of a number that is too large for a float; or, where what the schema finds cannot be told,
as the fault of that. -/
theorem ofValue_respelled (hk : (Value.map d).isKeyed = true) (h : (respelled d).Perm (respelled d')) :
    (∃ c, ofValue (.map d) = .ok c ∧ ofValue (.map d') = .ok c) ∨
    (∃ name problems, ShaderLoom.validate (.map (respelled d)) = .ok (.failed problems) ∧
      ofValue (.map d) = .error (.invalidConfig name problems) ∧
      ofValue (.map d') = .error (.invalidConfig name problems)) ∨
    (ShaderLoom.validate (.map (respelled d)) = .ok .passed ∧ (∃ v ∈ converted (respelled d), v.TooLarge) ∧
      ofValue (.map d) = .error .integerTooLarge ∧ ofValue (.map d') = .error .integerTooLarge) ∨
    (ShaderLoom.validate (.map (respelled d)) = .error .unprintable ∧
      ofValue (.map d) = .error .unprintable ∧ ofValue (.map d') = .error .unprintable) := by
  rw [ofValue_of_perm h]
  rcases validate_map_cases (respelled d) with ⟨problems, hfailed⟩ | hpassed | ⟨huntold, -⟩
  · have hfault := ofValue_of_failed hfailed
    exact Or.inr (Or.inl ⟨_, problems, hfailed, hfault, hfault⟩)
  · cases ofValue_of_passed hk hpassed with
    | read c hread small => exact Or.inl ⟨c, hread, hread⟩
    | failed hfault tooLarge => exact Or.inr (Or.inr (Or.inl ⟨hpassed, tooLarge, hfault, hfault⟩))
  · have hfault := ofValue_of_untold huntold
    exact Or.inr (Or.inr (Or.inr ⟨huntold, hfault, hfault⟩))

/-- The same fields in the other spelling and the other way round. -/
def turned (d : Entries Value) : Entries Value := (respelled d).reverse

theorem respelled_turned (scale channel : Value) :
    (respelled (sample scale channel)).Perm (respelled (turned (sample scale channel))) := by
  have hturned : respelled (turned (sample scale channel)) = (respelled (sample scale channel)).reverse := rfl
  rw [hturned]
  exact (List.reverse_perm _).symm

theorem sample_turned : (Value.map (sample (.int 2) (.int 1))).isKeyed = true ∧
    Entries.keys (turned (sample (.int 2) (.int 1))) ≠ Entries.keys (sample (.int 2) (.int 1)) ∧
    ∃ c, ofValue (.map (sample (.int 2) (.int 1))) = .ok c ∧
      ofValue (.map (turned (sample (.int 2) (.int 1)))) = .ok c := by
  have hk : (Value.map (sample (.int 2) (.int 1))).isKeyed = true := by decide
  have hjudged : judge (.map (respelled (sample (.int 2) (.int 1)))) = .passed := by decide +kernel
  have hpassed := validate_of_passed hjudged
  have hnone : ∀ v ∈ converted (respelled (sample (.int 2) (.int 1))), ¬v.TooLarge := by decide +kernel
  refine ⟨hk, by decide, ?_⟩
  rcases ofValue_respelled hk (respelled_turned _ _) with
    hread | ⟨_, _, hfailed, _⟩ | ⟨_, ⟨v, hv, hlarge⟩, _⟩ | ⟨huntold, _⟩
  · exact hread
  · cases hpassed.symm.trans hfailed
  · exact absurd hlarge (hnone v hv)
  · cases hpassed.symm.trans huntold

/-- Mappings that the schema accepts but for their order and spelling, with a scale of 310 digits, fail
for another reason than the schema's. -/
theorem large_scale_turned : ∃ d d', (Value.map d).isKeyed = true ∧ (Value.map d').isKeyed = true ∧
    ((Entries.keys d).map Text.snakeCase).Nodup ∧ ((Entries.keys d').map Text.snakeCase).Nodup ∧
    (respelled d).Perm (respelled d') ∧
    ¬((∃ c, ofValue (.map d) = .ok c ∧ ofValue (.map d') = .ok c) ∨
      ∃ name problems, ofValue (.map d) = .error (.invalidConfig name problems) ∧
        ofValue (.map d') = .error (.invalidConfig name problems)) := by
  have hk : (Value.map (sample (.int (10 ^ 309)) (.int 1))).isKeyed = true := by decide
  have hjudged : judge (.map (respelled (sample (.int (10 ^ 309)) (.int 1)))) = .passed := by decide +kernel
  have hpassed := validate_of_passed hjudged
  have hlarge : ∃ v ∈ converted (respelled (sample (.int (10 ^ 309)) (.int 1))), v.TooLarge := by decide +kernel
  refine ⟨sample (.int (10 ^ 309)) (.int 1), turned (sample (.int (10 ^ 309)) (.int 1)), hk, by decide, by decide,
    by decide, respelled_turned _ _, ?_⟩
  cases ofValue_of_passed hk hpassed with
  | read c hread small => exact absurd hlarge small
  | failed hfault tooLarge =>
    rw [hfault]
    rintro (⟨c, hread, -⟩ | ⟨name, problems, hfailed, -⟩)
    · cases hread
    · cases hfailed

end ShaderConfig

end ShaderLoom
