/-
  ShaderLoom.Proofs.Program.Harmless — below its header a source closes no comment.

  The texts of a source are fixed but for the names of the palette, which have no star, and so have
  numbers. A row of segments is harmless (`Harmless`) when none of its texts closes a comment, with
  what stands behind it or alone; then neither does what the row is written as (`inert_render`). All
  that a configuration has below its header is such a row (`harmless_belowHeader`), and what it is
  written as starts on a line of its own (`exists_tail`).
-/

import ShaderLoom.Proofs.Morph.Inserted
import ShaderLoom.Proofs.Program.Constants
import ShaderLoom.Proofs.Program.Entry
import ShaderLoom.Proofs.Program.Segments

namespace ShaderLoom.Program

open ShaderLoom.Lexeme ShaderLoom.Morph ShaderLoom.Outcome

/-! ## Rows that close no comment -/

/-- No text of the row closes a comment, nor does it with what stands behind it. -/
def Harmless (segs : List Segment) : Prop := ∀ s, .text s ∈ segs → Inert s.toList

section Harmless

variable {segs a b rest row : List Segment} {rows : List (List Segment)} {s sep : String}

theorem Harmless.nil : Harmless [] := fun _ h => nomatch h

theorem Harmless.text (hs : Inert s.toList) (h : Harmless rest) : Harmless (.text s :: rest) := by
  intro t ht
  rcases List.mem_cons.mp ht with ht | ht
  · cases ht
    exact hs
  · exact h t ht

theorem Harmless.number {v : Value} {decimals : Option Int} (h : Harmless rest) :
    Harmless (.number v decimals :: rest) := fun t ht => h t ((List.mem_cons.mp ht).resolve_left nofun)

theorem Harmless.append (ha : Harmless a) (hb : Harmless b) : Harmless (a ++ b) := fun s hs =>
  (List.mem_append.mp hs).elim (ha s) (hb s)

theorem Harmless.flatMap {α : Type} {f : α → List Segment} {l : List α} (h : ∀ x ∈ l, Harmless (f x)) :
    Harmless (l.flatMap f) := by
  intro s hs
  obtain ⟨x, hx, hs⟩ := List.mem_flatMap.mp hs
  exact h x hx s hs

theorem Harmless.between (hsep : Inert sep.toList) (h : ∀ row ∈ rows, Harmless row) : Harmless (between sep rows) := by
  cases rows with
  | nil => exact .nil
  | cons row rows =>
    rw [between_cons]
    exact (h row List.mem_cons_self).append
      (.flatMap fun row hrow => .text hsep (h row (List.mem_cons_of_mem _ hrow)))

theorem inert_number (x : Binary64) (decimals : Option Int) : Inert (Literal.ofNumber x decimals).toList :=
  inert_of_no_star fun h => absurd (Literal.numeral_literal x decimals '*' h) (by decide)

/-- Numbers have no star, so what a harmless row is written as closes no comment either. -/
theorem inert_render (h : Harmless segs) (hs : render segs = .ok s) : Inert s.toList := by
  induction segs generalizing s with
  | nil =>
    cases hs
    exact inert_nil
  | cons segment rest ih =>
    obtain ⟨t, ht, hs⟩ := bind_eq_ok.mp hs
    obtain ⟨r, hr, hs⟩ := bind_eq_ok.mp hs
    cases hs
    rw [String.toList_append]
    refine Inert.append ?_ (ih (fun s hs => h s (List.mem_cons_of_mem _ hs)) hr)
    cases segment with
    | text t =>
      cases ht
      exact h t List.mem_cons_self
    | number v decimals =>
      obtain ⟨x, rfl⟩ := exists_literal ht
      exact inert_number x decimals

end Harmless

/-! ## The texts below a header -/

/-- A fixed text that closes no comment, by reading it. -/
theorem inert_of_chars {s : String} (h : ∃ cs, s.toList = cs ∧ blockEnd? (cs ++ ['/']) = none) : Inert s.toList := by
  obtain ⟨cs, hcs, h⟩ := h
  exact hcs ▸ inert_of_test h

theorem Harmless.fixed {s : String} {rest : List Segment} (hs : ∃ cs, s.toList = cs ∧ blockEnd? (cs ++ ['/']) = none)
    (h : Harmless rest) : Harmless (.text s :: rest) := .text (inert_of_chars hs) h

theorem inert_line : Inert "\n".toList := inert_of_chars ⟨_, String.toList_ofList, by decide⟩

theorem inert_uniforms (c : ShaderConfig) : Inert (uniforms c).toList := by
  have hall : ∀ line ∈ baseUniforms ++ colorUniforms, '*' ∉ line.toList := by decide
  refine inert_lines fun line hline => inert_of_no_star (hall line ?_)
  split at hline
  · exact hline
  · exact List.mem_append_left _ (by rwa [List.append_nil] at hline)

/-! ## The rows -/

theorem harmless_constantRow {color : String × Rgb} (h : Shape.Identifier color.1) : Harmless (constantRow color) := by
  have hname : Inert color.1.toList := by
    obtain ⟨hid, hspells⟩ := identifier_spec h
    have hword : '*' ∉ identifier color.1 := fun hstar => absurd (isWord_of_isName hid _ hstar) (by decide)
    rcases hspells with hs | hs <;> rw [hs]
    · exact inert_of_no_star hword
    · exact (inert_of_no_star hword).append (inert_of_no_star (by decide))
  have hopening : Inert ("const float3 " ++ color.1 ++ " = float3(").toList := by
    rw [String.toList_append, String.toList_append]
    exact ((inert_of_chars ⟨_, String.toList_ofList, by decide⟩).append hname).append
      (inert_of_chars ⟨_, String.toList_ofList, by decide⟩)
  have hcomma : Inert ", ".toList := inert_of_chars ⟨_, String.toList_ofList, by decide⟩
  exact .text hopening (.number (.text hcomma (.number (.text hcomma (.number
    (.fixed ⟨_, String.toList_ofList, by decide⟩ .nil))))))

theorem harmless_paletteRows {c : ShaderConfig} (h : ∀ color ∈ c.palette.colors, Shape.Identifier color.1) :
    ∀ row ∈ paletteRows c, Harmless row := by
  intro row hrow
  rw [paletteRows] at hrow
  split at hrow
  · cases hrow
  · rw [List.mem_singleton.mp hrow]
    refine .fixed ⟨_, String.toList_ofList, by decide⟩ (.between inert_line fun row hrow => ?_)
    obtain ⟨color, hcolor, rfl⟩ := List.mem_map.mp hrow
    exact harmless_constantRow (h color hcolor)

theorem harmless_timeRow (t : Timing) : Harmless (timeRow t) := by
  have hoffset : Harmless (if t.offset.isTrue then [.text " + ", .number t.offset none] else []) := by
    split
    · exact .fixed ⟨_, String.toList_ofList, by decide⟩ (.number .nil)
    · exact .nil
  exact .fixed ⟨_, String.toList_ofList, by decide⟩ (.number
    (hoffset.append (.fixed ⟨_, String.toList_ofList, by decide⟩ .nil)))

theorem harmless_scaleRows (params : Entries Value) : ∀ row ∈ scaleRows params, Harmless row := by
  have hrow (v : Value) : Harmless [.text "  uv *= ", .number v none, .text ";"] :=
    .fixed ⟨_, String.toList_ofList, by decide⟩ (.number (.fixed ⟨_, String.toList_ofList, by decide⟩ .nil))
  intro row h
  unfold scaleRows at h
  split at h
  · exact List.mem_singleton.mp h ▸ hrow _
  · exact List.mem_singleton.mp h ▸ hrow _
  · cases h

theorem harmless_vignetteRow (v : Vignette) : Harmless (vignetteRow v) := by
  refine .between inert_line ?_
  simp only [List.forall_mem_cons, List.not_mem_nil, false_implies, implies_true, and_true]
  refine ⟨?_, ?_, ?_, ?_, ?_⟩
  all_goals
    repeat' first
      | exact .nil
      | apply Harmless.number
      | refine Harmless.fixed ⟨_, String.toList_ofList, by decide⟩ ?_

theorem harmless_entryRow (c : ShaderConfig) (effect : EffectKind) : Harmless (entryRow c effect.effect) := by
  have hempty : Harmless [.text ""] := .fixed ⟨[], rfl, rfl⟩ .nil
  refine .between inert_line (List.forall_mem_append.mpr ⟨List.forall_mem_append.mpr ⟨?_, harmless_scaleRows _⟩, ?_⟩)
  · simp only [List.forall_mem_cons, List.not_mem_nil, false_implies, implies_true, and_true]
    exact ⟨.fixed ⟨_, String.toList_ofList, by decide⟩ .nil, .fixed ⟨_, String.toList_ofList, by decide⟩ .nil,
      .fixed ⟨_, String.toList_ofList, by decide⟩ .nil, .fixed ⟨_, String.toList_ofList, by decide⟩ .nil, hempty,
      harmless_timeRow _⟩
  · simp only [List.forall_mem_cons, List.not_mem_nil, false_implies, implies_true, and_true]
    exact ⟨hempty, .text (body_main effect).inert .nil, hempty, harmless_vignetteRow _, hempty,
      .fixed ⟨_, String.toList_ofList, by decide⟩ .nil, .fixed ⟨_, String.toList_ofList, by decide⟩ .nil⟩

theorem harmless_belowHeader {c : ShaderConfig} {effect : EffectKind} {noise : NoiseKind}
    (h : ∀ color ∈ c.palette.colors, Shape.Identifier color.1) : Harmless (belowHeader c effect noise) := by
  have htitle {s t : String} (hs : ∃ cs, s.toList = cs ∧ blockEnd? (cs ++ ['/']) = none) (ht : Inert t.toList) :
      Inert (s ++ t).toList := by
    rw [String.toList_append]
    exact (inert_of_chars hs).append ht
  refine Harmless.append (.flatMap fun row hrow => .fixed ⟨_, String.toList_ofList, by decide⟩ ?_)
    (.text inert_line .nil)
  simp only [partRows, List.mem_cons, List.mem_append, List.not_mem_nil, or_false] at hrow
  rcases hrow with rfl | ((hrow | hrow) | hrow) | rfl | rfl
  · exact .text (htitle ⟨_, String.toList_ofList, by decide⟩ (inert_uniforms c)) .nil
  · exact harmless_paletteRows h row hrow
  · obtain ⟨f, hf, rfl⟩ := List.mem_map.mp hrow
    exact .text (library_noise hf).inert .nil
  · split at hrow
    · exact List.mem_singleton.mp hrow ▸ .text defines_turbulence.inert .nil
    · cases hrow
  · exact .text (htitle ⟨_, String.toList_ofList, by decide⟩ (defines_helpers effect).inert) .nil
  · exact .fixed ⟨_, String.toList_ofList, by decide⟩ (harmless_entryRow c effect)

/-- What is written below a header starts with a line end and closes no comment. -/
theorem exists_tail {c : ShaderConfig} {effect : EffectKind} {noise : NoiseKind} {tail : String}
    (h : ∀ color ∈ c.palette.colors, Shape.Identifier color.1) (ht : render (belowHeader c effect noise) = .ok tail) :
    ∃ v, tail.toList = '\n' :: v ∧ ¬Closes v := by
  have hinert : Inert tail.toList := inert_render (harmless_belowHeader h) ht
  obtain ⟨r, hr, hs⟩ := bind_eq_ok.mp ht
  obtain ⟨r', hr', hs⟩ := bind_eq_ok.mp hs
  cases hr
  cases hs
  have htext : ("\n\n" ++ r').toList = '\n' :: ('\n' :: r'.toList) := String.toList_append
  refine ⟨_, htext, fun hcloses => not_closes_nil (hinert [] ?_)⟩
  rw [List.append_nil, htext]
  exact hcloses.append_left ['\n']

end ShaderLoom.Program
