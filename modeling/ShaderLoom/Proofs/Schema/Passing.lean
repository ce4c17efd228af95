/-
  ShaderLoom.Proofs.Schema.Passing — when a schema finds no problem.

  A value passes a schema that finds no problem in it (`Passes`). A row of rules is passed when
  every rule is (`passes_rules_iff`), and for each rule there is one lemma that says when it is, for
  the kind of value that the rule speaks of.
-/

import ShaderLoom.Schema.Check

namespace ShaderLoom.Schema

def Passes (s : Schema) (v : Value) : Prop := problems s v = []

def PassesRule (declared : List String) (r : Rule) (v : Value) : Prop := problemsOfRule declared r v = []

variable {declared : List String} {v : Value}

attribute [local simp] problemsOfRule

theorem problemsOfRules_eq_nil_iff {rs : List Rule} :
    problemsOfRules declared rs v = [] ↔ ∀ r ∈ rs, PassesRule declared r v := by
  induction rs with
  | nil => simp [problemsOfRules]
  | cons r rs ih =>
    rw [problemsOfRules, List.append_eq_nil_iff, ih]
    simp [PassesRule]

theorem passes_rules_iff {body : List Rule} :
    Passes (.rules body) v ↔ ∀ r ∈ body, PassesRule (declaredFields body) r v :=
  problemsOfRules_eq_nil_iff

theorem passes_reference_iff {s : NamedSchema} : Passes s.reference v ↔ Passes (.rules s.body) v := Iff.rfl

/-! ## Rules for every kind of value -/

theorem kinds_iff {kinds : List ValueKind} :
    PassesRule declared (.kinds kinds) v ↔ ∃ k ∈ kinds, k.admits v = true := by
  rw [PassesRule, problemsOfRule, kindProblem]
  split
  · rename_i h
    simpa using h
  · rename_i h
    simpa using h

theorem oneOf_iff {tags : List String} : PassesRule declared (.oneOf tags) v ↔ ∃ s ∈ tags, v = .str s := by
  cases v <;> simp [PassesRule, tagProblem]

theorem bound_iff {broken : Bool} {relation : String} {bound : Value} :
    boundProblem broken v relation bound = [] ↔ (isNumber v = true → broken = false) := by
  rw [boundProblem]
  split
  · rename_i h
    simp_all
  · rename_i h
    simpa using h

theorem least_iff {bound : Value} :
    PassesRule declared (.least bound) v ↔ (isNumber v = true → isBelow v bound = false) := bound_iff

theorem greatest_iff {bound : Value} :
    PassesRule declared (.greatest bound) v ↔ (isNumber v = true → isBelow bound v = false) := bound_iff

theorem above_iff {bound : Value} :
    PassesRule declared (.above bound) v ↔ (isNumber v = true → isAtMost v bound = false) := bound_iff

/-! ## Rules for texts -/

theorem shortest_iff {n : Nat} {s : String} : PassesRule declared (.shortest n) (.str s) ↔ n ≤ s.length := by
  rw [PassesRule, problemsOfRule]
  split <;> simp_all

theorem form_iff {f : TextForm} {s : String} :
    PassesRule declared (.form f) (.str s) ↔ f.fits s.toList = true := by
  rw [PassesRule, problemsOfRule, formProblem]
  split <;> simp_all

/-! ## Rules for lists -/

theorem items_iff {each : Schema} {l : List Value} :
    PassesRule declared (.items each) (.list l) ↔ ∀ w ∈ l, Passes each w := by
  rw [PassesRule, problemsOfRule, List.flatMap_eq_nil_iff]
  simp only [List.map_eq_nil_iff]
  constructor
  · intro h w hw
    obtain ⟨i, hi⟩ := List.mem_iff_getElem?.mp hw
    exact h (w, i) (List.mem_zipIdx_iff_getElem?.mpr hi)
  · intro h p hp
    exact h _ (List.fst_mem_of_mem_zipIdx hp)

theorem fewest_iff {n : Nat} {l : List Value} : PassesRule declared (.fewest n) (.list l) ↔ n ≤ l.length := by
  rw [PassesRule, problemsOfRule]
  split <;> simp_all

theorem most_iff {n : Nat} {l : List Value} : PassesRule declared (.most n) (.list l) ↔ l.length ≤ n := by
  rw [PassesRule, problemsOfRule]
  split <;> simp_all

/-! ## Rules for mappings -/

variable {entries : Entries Value}

theorem required_iff {keys : List String} :
    PassesRule declared (.required keys) (.map entries) ↔ ∀ key ∈ keys, Entries.has key entries = true := by
  simp [PassesRule, missingProblems]

theorem fields_iff {fields : List (String × Schema)} :
    PassesRule declared (.fields fields) (.map entries) ↔
      ∀ f ∈ fields, ∀ w, Entries.get? f.1 entries = some w → Passes f.2 w := by
  rw [PassesRule, problemsOfRule]
  induction fields with
  | nil => simp [problemsOfFields]
  | cons f rest ih =>
    obtain ⟨name, s⟩ := f
    rw [problemsOfFields, List.append_eq_nil_iff, ih, List.forall_mem_cons]
    refine and_congr_left fun _ => ?_
    cases h : Entries.get? name entries <;> simp [Passes]

theorem fieldNames_iff {names : Schema} :
    PassesRule declared (.fieldNames names) (.map entries) ↔
      ∀ key ∈ Entries.keys entries, Passes names (.str key) := by
  simp [PassesRule, Passes, Entries.keys]

theorem closed_iff :
    PassesRule declared .closed (.map entries) ↔ ∀ key ∈ Entries.keys entries, key ∈ declared := by
  have hextra : Entries.keys (undeclared declared entries) = [] ↔ ∀ key ∈ Entries.keys entries, key ∈ declared := by
    simp [undeclared, Entries.keys]
  rw [← hextra, PassesRule, problemsOfRule, closedProblem]
  split <;> simp_all

theorem otherFields_iff {each : Schema} :
    PassesRule declared (.otherFields each) (.map entries) ↔
      ∀ key w, (key, w) ∈ entries → key ∉ declared → Passes each w := by
  simp [PassesRule, Passes, undeclared]

end ShaderLoom.Schema
