/-
  ShaderLoom.Proofs.Vibe.Round — the two ways round a group of shaders.

  A group is gone round by an index of any size, or from each shader to the next. Its ids are distinct, so
  the member at a position is found there and nowhere before (`findIdx?_member`): the shader after it is the
  member at the next position (`shaderAfter_member`), and steps add up to positions (`walk_member`). An id
  from outside leads to the start of the group. So many members in a row as the group has are the group
  turned round (`members_eq_rotate`), each of them once, wherever the row starts (`shaderFor_walk`).
-/

import Mathlib.Data.List.Rotate
import ShaderLoom.Proofs.Outcome
import ShaderLoom.Proofs.Value.Equality
import ShaderLoom.Vibe

namespace ShaderLoom

namespace Theme

theorem group_nodup (t : Theme) : t.group.Nodup := by cases t <;> decide

theorem group_ne_nil (t : Theme) : t.group ≠ [] := by cases t <;> decide

end Theme

namespace Vibe

open Outcome

/-! ## Positions in a group -/

section Group

variable {group : List Nat}

theorem member_mod (group : List Nat) (position : Nat) :
    member group (position % group.length) = member group position := by
  rw [member, member, Nat.mod_mod]

theorem member_of_lt {position : Nat} (h : position < group.length) : member group position = group[position] := by
  rw [member, Nat.mod_eq_of_lt h, List.getElem?_eq_getElem h, Option.getD_some]

theorem member_mod_add (group : List Nat) (position n : Nat) :
    member group (position % group.length + n) = member group (position + n) := by
  rw [← member_mod, Nat.mod_add_mod, member_mod]

theorem member_mem (hne : group ≠ []) (position : Nat) : member group position ∈ group := by
  rw [← member_mod, member_of_lt (Nat.mod_lt _ (List.length_pos_iff.mpr hne))]
  exact List.getElem_mem _

/-- A member is found where its position falls, for the ids are distinct. -/
theorem findIdx?_member (hn : group.Nodup) (hne : group ≠ []) (position : Nat) :
    group.findIdx? (fun (m : Nat) => (m : Int) == (member group position : Int)) = some (position % group.length) := by
  have hlt : position % group.length < group.length := Nat.mod_lt _ (List.length_pos_iff.mpr hne)
  rw [List.findIdx?_eq_some_iff_getElem, ← member_mod, member_of_lt hlt]
  refine ⟨hlt, beq_self_eq_true _, fun j hj hsame => ?_⟩
  have heq : group[j] = group[position % group.length] := Int.ofNat_inj.mp (eq_of_beq hsame)
  exact absurd (hn.getElem_inj_iff.mp heq) (Nat.ne_of_lt hj)

/-- As many members in a row as there are, from a position on. -/
theorem members_eq_rotate (group : List Nat) (position : Nat) :
    ((List.range group.length).map fun n => member group (position + n)) = group.rotate position := by
  refine List.ext_getElem (by simp) fun n hn _ => ?_
  have hlt : n < group.length := by simpa using hn
  have hpos : (position + n) % group.length < group.length := Nat.mod_lt _ (Nat.zero_lt_of_lt hlt)
  rw [List.getElem_map, List.getElem_range, List.getElem_rotate, ← member_mod, member_of_lt hpos]
  simp only [Nat.add_comm n position]

end Group

/-! ## One step -/

variable {theme current : Value} {t : Theme} {choose : List Nat → Option Nat}

theorem shaderAfter_member (t : Theme) (position : Nat) :
    shaderAfter t (member t.group position) = member t.group (position + 1) := by
  rw [shaderAfter, findIdx?_member t.group_nodup t.group_ne_nil]
  exact member_mod_add _ _ 1

theorem nextShader_eq (h : Theme.ofValue theme = .ok t) (current : Value) :
    nextShader theme current = .ok ((current.wholeNumber?.map (shaderAfter t)).getD (member t.group 0)) := by
  rw [nextShader, h]
  cases current.wholeNumber? <;> rfl

theorem nextShader_member (h : Theme.ofValue theme = .ok t) (position : Nat) :
    nextShader theme (.int (member t.group position)) = .ok (member t.group (position + 1)) := by
  rw [nextShader_eq h]
  exact congrArg Except.ok (shaderAfter_member t position)

/-- From whatever is given the step leads into the group. -/
theorem exists_nextShader (h : Theme.ofValue theme = .ok t) (current : Value) :
    ∃ position, nextShader theme current = .ok (member t.group position) := by
  rw [nextShader_eq h]
  cases current.wholeNumber? with
  | none => exact ⟨0, rfl⟩
  | some id =>
    simp only [Option.map_some, Option.getD_some, shaderAfter]
    cases t.group.findIdx? fun (m : Nat) => (m : Int) == id with
    | none => exact ⟨0, rfl⟩
    | some position => exact ⟨position + 1, rfl⟩

/-- What equals no member leads to the start of the group. -/
theorem nextShader_foreign (h : Theme.ofValue theme = .ok t)
    (hforeign : ∀ m ∈ t.group, (Value.int m).equals current = false) :
    nextShader theme current = .ok (member t.group 0) := by
  rw [nextShader_eq h]
  cases hid : current.wholeNumber? with
  | none => rfl
  | some id =>
    have hnone : t.group.findIdx? (fun (m : Nat) => (m : Int) == id) = none := by
      refine List.findIdx?_eq_none_iff.mpr fun m hm => beq_eq_false_iff_ne.mpr fun heq => ?_
      subst heq
      rw [Value.wholeNumber?_eq_some_iff, hforeign m hm] at hid
      cases hid
    rw [Option.map_some, Option.getD_some, shaderAfter, hnone]

theorem shaderFor_int (h : Theme.ofValue theme = .ok t) (index : Int) :
    shaderFor theme (.int index) choose = .ok (member t.group index.natAbs) := by
  rw [shaderFor, h]
  rfl

/-! ## Steps in a row -/

/-- So many steps on from a shader, each to the one after it. -/
def walk (theme : Value) : Nat → Nat → Except Fault Nat
  | 0, id => .ok id
  | n + 1, id => do walk theme n (← nextShader theme (.int id))

theorem walk_member (h : Theme.ofValue theme = .ok t) (n position : Nat) :
    walk theme n (member t.group position) = .ok (member t.group (position + n)) := by
  induction n generalizing position with
  | zero => rfl
  | succ n ih =>
    rw [walk, nextShader_member h, show position + (n + 1) = position + 1 + n by omega]
    exact ih (position + 1)

/-- A row of outcomes, as long as the group, that are its members from a position on. -/
theorem exists_round {outcome : Nat → Except Fault Nat} {position : Nat}
    (h : ∀ n, outcome n = .ok (member t.group (position + n))) :
    ∃ ids, (List.range t.group.length).mapM outcome = .ok ids ∧ ids.Perm t.group := by
  refine ⟨_, mapM_of_ok fun n _ => h n, ?_⟩
  rw [members_eq_rotate]
  exact List.rotate_perm _ _

/-- Steps from the shader at an index lead to the shader at the index so much further on, and the sign of an
    index counts for nothing. For a known theme the shaders are members of its group; a step from what
    is no member leads to index zero and further steps on from there; and from any start as many steps, or
    indices in a row, as there are members come to each member once. -/
theorem shaderFor_walk (theme : Value) (choose : List Nat → Option Nat) :
    (∀ index n : Nat, (shaderFor theme (.int index) choose >>= walk theme n) =
      shaderFor theme (.int (index + n : Nat)) choose) ∧
    (∀ index : Int, shaderFor theme (.int (-index)) choose = shaderFor theme (.int index) choose) ∧
    ∀ t, Theme.ofValue theme = .ok t →
      t.group.Nodup ∧
      (∀ index : Int, ∃ id ∈ t.group, shaderFor theme (.int index) choose = .ok id) ∧
      (∀ current, (∀ m ∈ t.group, (Value.int m).equals current = false) → ∀ n : Nat,
        (nextShader theme current >>= walk theme n) = shaderFor theme (.int n) choose) ∧
      (∀ current, ∃ ids,
        ((List.range t.group.length).mapM fun n => nextShader theme current >>= walk theme n) = .ok ids ∧
        ids.Perm t.group) ∧
      ∀ index : Nat, ∃ ids,
        ((List.range t.group.length).mapM fun n => shaderFor theme (.int (index + n : Nat)) choose) = .ok ids ∧
        ids.Perm t.group := by
  refine ⟨fun index n => ?_, fun index => ?_, fun t ht =>
    ⟨t.group_nodup, fun index => ?_, fun current hforeign n => ?_, fun current => ?_, fun index =>
      exists_round fun n => shaderFor_int ht _⟩⟩
  · cases ht : Theme.ofValue theme with
    | error e => simp only [shaderFor, ht]; rfl
    | ok t =>
      rw [shaderFor_int ht, shaderFor_int ht]
      exact walk_member ht n index
  · cases ht : Theme.ofValue theme with
    | error e => simp only [shaderFor, ht]; rfl
    | ok t => rw [shaderFor_int ht, shaderFor_int ht, Int.natAbs_neg]
  · exact ⟨_, member_mem t.group_ne_nil _, shaderFor_int ht index⟩
  · rw [nextShader_foreign ht hforeign, shaderFor_int ht]
    show walk theme n (member t.group 0) = _
    rw [walk_member ht, Nat.zero_add]
    rfl
  · obtain ⟨position, hstep⟩ := exists_nextShader ht current
    have hsteps : ∀ n, (nextShader theme current >>= walk theme n) = .ok (member t.group (position + n)) := by
      intro n
      rw [hstep]
      exact walk_member ht n position
    exact exists_round hsteps

/-- The group of a theme gone round from an id that is not in it. -/
theorem deepGroup_walked : Theme.ofValue (.str "DEEP") = .ok .deep ∧
    (∀ m ∈ Theme.deep.group, (Value.int m).equals (.int 5) = false) ∧
    (nextShader (.str "DEEP") (.int 5) >>= walk (.str "DEEP") 4) = .ok 13 ∧
    ∃ ids, ((List.range 3).mapM fun n => nextShader (.str "DEEP") (.int 13) >>= walk (.str "DEEP") n) = .ok ids ∧
      ids.Perm [4, 13, 17] := by
  have hdeep : Theme.ofValue (.str "DEEP") = .ok .deep := by rfl
  have hforeign : ∀ m ∈ Theme.deep.group, (Value.int m).equals (.int 5) = false := by decide +kernel
  obtain ⟨-, -, hvalid⟩ := shaderFor_walk (.str "DEEP") fun _ => none
  obtain ⟨-, -, houtside, hround, -⟩ := hvalid .deep hdeep
  refine ⟨hdeep, hforeign, ?_, hround (.int 13)⟩
  rw [houtside _ hforeign]
  rfl

end Vibe

end ShaderLoom
