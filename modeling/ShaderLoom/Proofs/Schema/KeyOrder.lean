/-
  ShaderLoom.Proofs.Schema.KeyOrder — validation against the order of keys.

  Some rules go through the fields of a mapping in an order of their own, others in the order the
  mapping has them in. So for two values that differ in the order of keys only, at any depth, a schema
  finds problems at the same paths and as often, but in another order (`paths_orderFree`, by induction
  on the schema with one lemma for each rule). Sorting by the texts of paths undoes that: in a value
  without repeated keys two paths of one text are one path (`path_of_texts`). So a configuration gets
  the same verdict at the same paths however its keys are ordered (`judge_reordered`).
-/

import ShaderLoom.Proofs.Number.Digits
import ShaderLoom.Proofs.Schema.Located

namespace ShaderLoom

open Value

/-! ## Paths of problems -/

namespace Problem

variable {l l' : List Problem}

def paths (l : List Problem) : List (List PathPart) := l.map (·.path)

theorem paths_append (l l' : List Problem) : paths (l ++ l') = paths l ++ paths l' := List.map_append

theorem paths_under (part : PathPart) (l : List Problem) :
    paths (l.map (·.under part)) = (paths l).map (part :: ·) := by
  rw [paths, paths, List.map_map, List.map_map]
  rfl

theorem paths_flatMap {α : Type} (f : α → List Problem) (l : List α) :
    paths (l.flatMap f) = l.flatMap fun a => paths (f a) := List.map_flatMap

/-- Problems of values matched one by one. -/
theorem perm_flatMap {α : Type} {f : α → List Problem} {as bs : List α}
    (h : List.Forall₂ (fun a b => (paths (f a)).Perm (paths (f b))) as bs) :
    (paths (as.flatMap f)).Perm (paths (bs.flatMap f)) := by
  rw [paths_flatMap, paths_flatMap]
  induction h with
  | nil => exact .refl _
  | cons hab _ ih => exact hab.append ih

end Problem

open Problem

/-! ## Rules -/

namespace Schema

variable {declared : List String}

/-- A schema finds problems at the same paths and as often, whatever the order of keys. -/
def OrderFree (s : Schema) : Prop :=
  ∀ v w, v.isKeyed = true → Reordered v w → (paths (problems s v)).Perm (paths (problems s w))

def RuleOrderFree (declared : List String) (r : Rule) : Prop :=
  ∀ v w, v.isKeyed = true → Reordered v w →
    (paths (problemsOfRule declared r v)).Perm (paths (problemsOfRule declared r w))

/-- A rule for mappings only. -/
theorem ruleOrderFree_of_map {r : Rule} (hlist : ∀ items, problemsOfRule declared r (.list items) = [])
    (hmap : ∀ a b c, (Value.map a).isKeyed = true → List.Forall₂ ReorderedEntry a b → b.Perm c →
      (paths (problemsOfRule declared r (.map a))).Perm (paths (problemsOfRule declared r (.map c)))) :
    RuleOrderFree declared r := by
  intro v w hk h
  cases h with
  | refl => exact .refl _
  | list => rw [hlist, hlist]
  | map hkeys hvalues hperm => exact hmap _ _ _ hk (reorderedEntries hkeys hvalues) hperm

theorem keys_reordered {a b c : Entries Value} (h : List.Forall₂ ReorderedEntry a b) (hperm : b.Perm c) :
    (Entries.keys a).Perm (Entries.keys c) := by
  have hkeys : Entries.keys a = Entries.keys b := by
    refine List.forall₂_eq_eq_eq ▸ ?_
    exact List.forall₂_map_left_iff.mpr (List.forall₂_map_right_iff.mpr (h.imp fun _ _ hpq => hpq.1))
  rw [hkeys]
  exact hperm.map Prod.fst

/-- A rule that says the same of every list and of every mapping. -/
theorem paths_kindProblem {kinds : List ValueKind} {v w : Value} (h : ∀ k : ValueKind, k.admits v = k.admits w) :
    paths (kindProblem kinds v) = paths (kindProblem kinds w) := by
  have hany : (kinds.any fun k => k.admits v) = kinds.any fun k => k.admits w := by
    congr 1
    funext k
    exact h k
  unfold kindProblem
  rw [hany]
  split
  · rfl
  · rfl

theorem kinds_orderFree (kinds : List ValueKind) : RuleOrderFree declared (.kinds kinds) := by
  intro v w _ h
  have hadmits : ∀ k : ValueKind, k.admits v = k.admits w := by
    intro k
    cases h with
    | refl => rfl
    | list => cases k <;> rfl
    | map => cases k <;> rfl
  show (paths (kindProblem kinds v)).Perm (paths (kindProblem kinds w))
  rw [paths_kindProblem hadmits]

/-- A rule that has nothing to say of lists and mappings beyond what they are. -/
theorem ruleOrderFree_of_scalar {r : Rule}
    (hlist : ∀ vs ws, paths (problemsOfRule declared r (.list vs)) = paths (problemsOfRule declared r (.list ws)))
    (hmap : ∀ a b, paths (problemsOfRule declared r (.map a)) = paths (problemsOfRule declared r (.map b))) :
    RuleOrderFree declared r := by
  intro v w _ h
  cases h with
  | refl => exact .refl _
  | list => rw [hlist]
  | map => rw [hmap]

theorem missingProblems_of_keys {keys : List String} {a c : Entries Value}
    (h : (Entries.keys a).Perm (Entries.keys c)) : missingProblems keys a = missingProblems keys c := by
  have hmissing : (fun key => !Entries.has key a) = fun key => !Entries.has key c := by
    funext key
    rw [Entries.has_of_perm h]
  rw [missingProblems, missingProblems, hmissing]

/-- Keys that are not declared are told in their own order. -/
theorem closedProblem_of_perm {keys keys' : List String} (h : keys.Perm keys') :
    closedProblem keys = closedProblem keys' := by
  have hsorted : (keys.mergeSort fun a b => decide (a ≤ b)) = keys'.mergeSort fun a b => decide (a ≤ b) := by
    refine List.Perm.eq_of_pairwise (fun _ _ _ _ => String.le_antisymm) (pairwise_sortedTexts keys)
      (pairwise_sortedTexts keys') ?_
    exact (List.mergeSort_perm keys _).trans (h.trans (List.mergeSort_perm keys' _).symm)
  have hempty : keys.isEmpty = keys'.isEmpty := by
    rw [Bool.eq_iff_iff, List.isEmpty_iff, List.isEmpty_iff]
    exact ⟨fun hnil => (hnil ▸ h).nil_eq.symm, fun hnil => (hnil ▸ h).eq_nil⟩
  rw [closedProblem, closedProblem, hsorted, hempty, h.length_eq]

theorem closedProblem_of_keys {a c : Entries Value} (h : (Entries.keys a).Perm (Entries.keys c)) :
    closedProblem (Entries.keys (undeclared declared a)) = closedProblem (Entries.keys (undeclared declared c)) := by
  rw [keys_undeclared, keys_undeclared]
  exact closedProblem_of_perm (h.filter _)

theorem required_orderFree (keys : List String) : RuleOrderFree declared (.required keys) := by
  apply ruleOrderFree_of_map fun _ => rfl
  intro a b c _ h hperm
  show (paths (missingProblems keys a)).Perm (paths (missingProblems keys c))
  rw [missingProblems_of_keys (keys_reordered h hperm)]

theorem closed_orderFree : RuleOrderFree declared .closed := by
  apply ruleOrderFree_of_map fun _ => rfl
  intro a b c _ h hperm
  show (paths (closedProblem _)).Perm (paths (closedProblem _))
  rw [closedProblem_of_keys (keys_reordered h hperm)]

theorem fieldNames_orderFree (names : Schema) : RuleOrderFree declared (.fieldNames names) := by
  apply ruleOrderFree_of_map fun _ => rfl
  intro a b c _ h hperm
  have hnames : ∀ e : Entries Value, problemsOfRule declared (.fieldNames names) (.map e) =
      (Entries.keys e).flatMap fun key => problems names (.str key) := by
    intro e
    rw [Entries.keys, List.flatMap_map]
    rfl
  rw [hnames, hnames, paths_flatMap, paths_flatMap]
  exact (keys_reordered h hperm).flatMap_right _

theorem otherFields_orderFree {each : Schema} (heach : OrderFree each) :
    RuleOrderFree declared (.otherFields each) := by
  apply ruleOrderFree_of_map fun _ => rfl
  intro a b c hk h hperm
  let part := fun p : String × Value => (problems each p.2).map (·.under (.key p.1))
  show (paths ((undeclared declared a).flatMap part)).Perm (paths ((undeclared declared c).flatMap part))
  have hkeyed := (List.forall₂_and_left a b).mpr ⟨(isKeyed_map.mp hk).2, h⟩
  have hmatched : List.Forall₂ (fun p q => p.2.isKeyed = true ∧ ReorderedEntry p q) (undeclared declared a)
      (undeclared declared b) := by
    refine List.rel_filter ?_ hkeyed
    intro p q hpq
    show (!declared.contains p.1) = true ↔ (!declared.contains q.1) = true
    rw [hpq.2.1]
  have hperm' : (undeclared declared b).Perm (undeclared declared c) := hperm.filter _
  refine (perm_flatMap (hmatched.imp ?_)).trans ?_
  · intro p q hpq
    obtain ⟨hkeyed, hkey, hvalue⟩ := hpq
    show (paths (List.map _ _)).Perm (paths (List.map _ _))
    rw [paths_under, paths_under, hkey]
    exact (heach _ _ hkeyed hvalue).map _
  · rw [paths_flatMap, paths_flatMap]
    exact hperm'.flatMap_right _

theorem forall₂_zipIdx {vs ws : List Value}
    (h : List.Forall₂ (fun v w => v.isKeyed = true ∧ Reordered v w) vs ws) (n : Nat) :
    List.Forall₂ (fun p q => p.2 = q.2 ∧ p.1.isKeyed = true ∧ Reordered p.1 q.1) (vs.zipIdx n) (ws.zipIdx n) := by
  induction h generalizing n with
  | nil => exact .nil
  | cons hvw _ ih => exact .cons ⟨rfl, hvw⟩ (ih (n + 1))

theorem items_orderFree {each : Schema} (heach : OrderFree each) : RuleOrderFree declared (.items each) := by
  intro v w hk h
  cases h with
  | refl => exact .refl _
  | map => exact .refl _
  | @list vs ws h =>
    have hkeyed := (List.forall₂_and_left vs ws).mpr ⟨itemsKeyed_iff.mp hk, h⟩
    refine perm_flatMap ((forall₂_zipIdx hkeyed 0).imp ?_)
    intro p q hpq
    obtain ⟨hindex, hkeyed, hvalue⟩ := hpq
    show (paths (List.map _ _)).Perm (paths (List.map _ _))
    rw [paths_under, paths_under, hindex]
    exact (heach _ _ hkeyed hvalue).map _

/-- Of a list a rule may ask the length. -/
theorem ruleOrderFree_of_length {r : Rule}
    (hlist : ∀ vs ws : List Value, vs.length = ws.length →
      paths (problemsOfRule declared r (.list vs)) = paths (problemsOfRule declared r (.list ws)))
    (hmap : ∀ entries, problemsOfRule declared r (.map entries) = []) : RuleOrderFree declared r := by
  intro v w _ h
  cases h with
  | refl => exact .refl _
  | list h => rw [hlist _ _ h.length_eq]
  | map => rw [hmap, hmap]

theorem fewest_orderFree (count : Nat) : RuleOrderFree declared (.fewest count) := by
  refine ruleOrderFree_of_length ?_ fun _ => rfl
  intro vs ws h
  show paths (if vs.length < count then _ else _) = paths (if ws.length < count then _ else _)
  rw [h]
  split
  · rfl
  · rfl

theorem most_orderFree (count : Nat) : RuleOrderFree declared (.most count) := by
  refine ruleOrderFree_of_length ?_ fun _ => rfl
  intro vs ws h
  show paths (if vs.length > count then _ else _) = paths (if ws.length > count then _ else _)
  rw [h]
  split
  · rfl
  · rfl

/-! ## Schemas -/

theorem fields_orderFree {fields : List (String × Schema)}
    (hfields : ∀ a b c, (Value.map a).isKeyed = true → List.Forall₂ ReorderedEntry a b → b.Perm c →
      (paths (problemsOfFields fields a)).Perm (paths (problemsOfFields fields c))) :
    RuleOrderFree declared (.fields fields) :=
  ruleOrderFree_of_map (fun _ => rfl) hfields

/-- The problems of one field. -/
theorem paths_field {s : Schema} {name : String} (hs : OrderFree s) {a b c : Entries Value}
    (hk : (Value.map a).isKeyed = true) (h : List.Forall₂ ReorderedEntry a b) (hperm : b.Perm c) :
    (paths (match Entries.get? name a with
      | some v => (problems s v).map (·.under (.key name))
      | none => [])).Perm
    (paths (match Entries.get? name c with
      | some v => (problems s v).map (·.under (.key name))
      | none => [])) := by
  have hb : (Entries.keys b).Nodup :=
    ((hperm.map Prod.fst).trans (keys_reordered h hperm).symm).nodup_iff.mpr (isKeyed_map.mp hk).1
  rw [← Entries.get?_of_perm hb hperm]
  rcases get?_reordered h name with ⟨hnone, hnone'⟩ | ⟨v, w, hv, hw, hvalue⟩
  · rw [hnone, hnone']
  · rw [hv, hw]
    show (paths (List.map _ _)).Perm (paths (List.map _ _))
    rw [paths_under, paths_under]
    exact (hs v w ((isKeyed_map.mp hk).2 _ (Entries.mem_of_get? hv)) hvalue).map _

mutual
theorem paths_orderFree : (s : Schema) → OrderFree s
  | .rules body => fun _ _ hk h => rules_orderFree (declaredFields body) body _ _ hk h
  | .reference _ target => paths_orderFree target

theorem rules_orderFree (declared : List String) : (rules : List Rule) → ∀ v w, v.isKeyed = true → Reordered v w →
    (paths (problemsOfRules declared rules v)).Perm (paths (problemsOfRules declared rules w))
  | [] => fun _ _ _ _ => .refl _
  | r :: rs => fun v w hk h => by
    rw [problemsOfRules, problemsOfRules, paths_append, paths_append]
    exact (rule_orderFree declared r v w hk h).append (rules_orderFree declared rs v w hk h)

theorem rule_orderFree (declared : List String) : (r : Rule) → RuleOrderFree declared r
  | .kinds kinds => kinds_orderFree kinds
  | .oneOf _ => ruleOrderFree_of_scalar (fun _ _ => rfl) fun _ _ => rfl
  | .required keys => required_orderFree keys
  | .fields fields => fields_orderFree (listed_orderFree fields)
  | .fieldNames names => fieldNames_orderFree names
  | .closed => closed_orderFree
  | .otherFields each => otherFields_orderFree (paths_orderFree each)
  | .items each => items_orderFree (paths_orderFree each)
  | .fewest count => fewest_orderFree count
  | .most count => most_orderFree count
  | .shortest _ => ruleOrderFree_of_scalar (fun _ _ => rfl) fun _ _ => rfl
  | .form _ => ruleOrderFree_of_scalar (fun _ _ => rfl) fun _ _ => rfl
  | .least _ => ruleOrderFree_of_scalar (fun _ _ => rfl) fun _ _ => rfl
  | .greatest _ => ruleOrderFree_of_scalar (fun _ _ => rfl) fun _ _ => rfl
  | .above _ => ruleOrderFree_of_scalar (fun _ _ => rfl) fun _ _ => rfl

theorem listed_orderFree : (fields : List (String × Schema)) → ∀ a b c, (Value.map a).isKeyed = true →
    List.Forall₂ ReorderedEntry a b → b.Perm c →
      (paths (problemsOfFields fields a)).Perm (paths (problemsOfFields fields c))
  | [] => fun _ _ _ _ _ _ => .refl _
  | (_, s) :: rest => fun a b c hk h hperm => by
    rw [problemsOfFields, problemsOfFields, paths_append, paths_append]
    exact (paths_field (paths_orderFree s) hk h hperm).append (listed_orderFree rest a b c hk h hperm)
end

end Schema

/-! ## Order -/

theorem intText_inj {m n : Nat} (h : intText m = intText n) : m = n := by
  have hdigits : Decimal.digitText m = Decimal.digitText n := by
    have hm : ∀ k : Nat, (intText k).toList = Decimal.digitText k := by
      intro k
      rw [intText, String.toList_ofList, if_neg (by omega)]
      rfl
    rw [← hm, ← hm, h]
  rw [← Reading.ofDigits_digitText m, ← Reading.ofDigits_digitText n, hdigits]

/-- Paths that lead somewhere are told apart by their texts: a value has keys or positions, not both. -/
theorem path_of_texts {v u w : Value} {p q : List PathPart} (hp : v.follow? p = some u) (hq : v.follow? q = some w)
    (h : p.map PathPart.text = q.map PathPart.text) : p = q := by
  induction p generalizing v q with
  | nil =>
    cases q with
    | nil => rfl
    | cons b q => cases h
  | cons a p ih =>
    cases q with
    | nil => cases h
    | cons b q =>
      obtain ⟨htext, htexts⟩ := List.cons.inj h
      obtain ⟨x, hx, hp⟩ := Option.bind_eq_some_iff.mp hp
      obtain ⟨y, hy, hq⟩ := Option.bind_eq_some_iff.mp hq
      have hab : a = b := by
        cases v with
        | map entries =>
          cases a with
          | index i => cases hx
          | key name =>
            cases b with
            | index j => cases hy
            | key other => exact congrArg PathPart.key htext
        | list items =>
          cases a with
          | key name => cases hx
          | index i =>
            cases b with
            | key other => cases hy
            | index j => exact congrArg PathPart.index (intText_inj htext)
        | _ => cases hx
      subst hab
      cases hx.symm.trans hy
      rw [ih hp hq htexts]

namespace Problem

theorem pathLe_antisymm {a b : List String} (hab : pathLe a b = true) (hba : pathLe b a = true) : a = b := by
  rw [pathLe_iff] at hab hba
  exact @List.le_antisymm String _ _ a b hab hba

/-- Problems at the same paths come in one order where paths are told apart by their texts. -/
theorem paths_inPathOrder {l l' : List Problem} (h : (paths l).Perm (paths l'))
    (htexts : ∀ p ∈ paths l, ∀ q ∈ paths l, p.map PathPart.text = q.map PathPart.text → p = q) :
    paths (inPathOrder l) = paths (inPathOrder l') := by
  have hsorted : ∀ l : List Problem, (paths (inPathOrder l)).Pairwise fun p q =>
      pathLe (p.map PathPart.text) (q.map PathPart.text) = true := by
    intro l
    refine List.pairwise_map.mpr ?_
    exact (pairwise_inPathOrder l).imp fun hlex => pathLe_iff.mpr hlex
  have hperm : ∀ l : List Problem, (paths (inPathOrder l)).Perm (paths l) := fun l => (List.mergeSort_perm l _).map _
  refine List.Perm.eq_of_pairwise ?_ (hsorted l) (hsorted l') ((hperm l).trans (h.trans (hperm l').symm))
  intro p q hp hq hpq hqp
  exact htexts p ((hperm l).mem_iff.mp hp) q (h.mem_iff.mpr ((hperm l').mem_iff.mp hq)) (pathLe_antisymm hpq hqp)

end Problem

/-! ## Configurations -/

theorem configProblems_reordered {a c : Entries Value} (hk : (Value.map a).isKeyed = true)
    (h : Reordered (.map a) (.map c)) : paths (configProblems a) = paths (configProblems c) := by
  refine paths_inPathOrder (Schema.paths_orderFree _ _ _ hk h) ?_
  have hleads : ∀ p ∈ paths (Schema.problems (.rules Schema.config.body) (.map a)),
      ∃ u, (Value.map a).follow? p = some u := by
    intro p hp
    obtain ⟨problem, hmem, rfl⟩ := List.mem_map.mp hp
    obtain ⟨rules, u, hu, -⟩ := Schema.mem_problems_iff.mp hmem
    exact ⟨u, Schema.follow?_of_governs hk hu⟩
  intro p hp q hq
  obtain ⟨u, hu⟩ := hleads p hp
  obtain ⟨w, hw⟩ := hleads q hq
  exact path_of_texts hu hw

/-- A value with its keys in another order gets the same verdict, with as many problems at the same
paths in the same order. -/
theorem judge_reordered {v w : Value} (hk : v.isKeyed = true) (h : Reordered v w) :
    (judge w).ok = (judge v).ok ∧ (judge w).reason = (judge v).reason ∧
      (judge w).problems.length = (judge v).problems.length ∧
      (judge w).problems.map (·.path) = (judge v).problems.map (·.path) := by
  cases h with
  | refl => exact ⟨rfl, rfl, rfl, rfl⟩
  | list => exact ⟨rfl, rfl, rfl, rfl⟩
  | @map a b c hkeys hvalues hperm =>
    have hpaths : paths (configProblems c) = paths (configProblems a) :=
      (configProblems_reordered hk (.map hkeys hvalues hperm)).symm
    have hlength : (configProblems c).length = (configProblems a).length := by
      have hlengths := congrArg List.length hpaths
      rwa [paths, paths, List.length_map, List.length_map] at hlengths
    rw [judge_map_eq, judge_map_eq]
    by_cases hnone : configProblems a = []
    · have hnone' : configProblems c = [] := by
        rw [← List.length_eq_zero_iff, hlength, hnone, List.length_nil]
      rw [if_pos hnone, if_pos hnone']
      exact ⟨rfl, rfl, rfl, rfl⟩
    · have hsome : configProblems c ≠ [] := by
        rw [← List.length_pos_iff, hlength]
        exact List.length_pos_iff.mpr hnone
      rw [if_neg hnone, if_neg hsome]
      exact ⟨rfl, rfl, hlength, hpaths⟩

/-- A configuration that lacks most fields, with a field too many and colors under names that are none. -/
def misnamed : Value := .map [
  ("mood", .null),
  ("palette", .map [("colors", .map [("1a", .int 0), ("2b", .list [.int 2])]), ("tint", .null)])]

/-- The same with the keys the other way round throughout. -/
def misnamedTurned : Value := .map [
  ("palette", .map [("tint", .null), ("colors", .map [("2b", .list [.int 2]), ("1a", .int 0)])]),
  ("mood", .null)]

theorem reordered_pair {v v' w w' : Value} (hv : Reordered v v') (hw : Reordered w w') (k l : String) :
    Reordered (.map [(k, v), (l, w)]) (.map [(l, w'), (k, v')]) :=
  .map (b := [(k, v'), (l, w')]) rfl (.cons hv (.cons hw .nil)) (.swap _ _ _)

theorem misnamed_turned : misnamed.isKeyed = true ∧ Reordered misnamed misnamedTurned ∧
    paths (Schema.problems (.rules Schema.config.body) misnamedTurned) ≠
      paths (Schema.problems (.rules Schema.config.body) misnamed) ∧
    (judge misnamedTurned).problems.map (·.path) = (judge misnamed).problems.map (·.path) := by
  have hk : misnamed.isKeyed = true := by decide
  have hturned : Reordered misnamed misnamedTurned :=
    reordered_pair (.refl _) (reordered_pair (reordered_pair (.refl _) (.refl _) "1a" "2b") (.refl _) "colors" "tint")
      "mood" "palette"
  refine ⟨hk, hturned, ?_, (judge_reordered hk hturned).2.2.2⟩
  decide +kernel

end ShaderLoom
