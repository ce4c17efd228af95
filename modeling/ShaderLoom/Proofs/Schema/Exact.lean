/-
  ShaderLoom.Proofs.Schema.Exact — how exactly an accepted configuration spells its texts.

  The schema asks a form of the fallback color and of the names of the palette, and a form may have
  one line end behind it. So an accepted fallback color is `#` with six hexadecimal digits, which is
  read as a color with channels between zero and one, or that with a line end, which is not read; and
  a name is an identifier or one with a line end. Nothing else stands in them, and all of them are
  exact precisely when none holds a line end (`accepted_texts`). One that does is accepted
  (`line_ends_accepted`).
-/

import ShaderLoom.Proofs.Color
import ShaderLoom.Proofs.Schema.Accepted

namespace ShaderLoom

/-! ## Texts without a line end -/

namespace Shape

/-- `#` and six hexadecimal digits. -/
def ExactColor (s : String) : Prop :=
  ∃ digits, s.toList = '#' :: digits ∧ digits.length = 6 ∧ ∀ c ∈ digits, HexDigit c

/-- A letter or `_`, then letters, digits and `_`. -/
def ExactName (s : String) : Prop := ∃ c cs, s.toList = c :: cs ∧ NameStart c ∧ ∀ d ∈ cs, NamePart d

variable {s t : String}

theorem eq_append_lineEnd {cs : List Char} (h : s.toList = cs ++ ['\n']) : ∃ t : String, s = t ++ "\n" ∧ t.toList = cs := by
  refine ⟨String.ofList cs, String.toList_injective ?_, String.toList_ofList⟩
  rw [h, String.toList_append, String.toList_ofList]
  rfl

theorem lineEnd_mem (t : String) : '\n' ∈ (t ++ "\n").toList := by
  rw [String.toList_append]
  exact List.mem_append_right _ (List.mem_singleton_self _)

theorem hexColor_cases (h : HexColor s) : ExactColor s ∨ ∃ t, s = t ++ "\n" ∧ ExactColor t := by
  obtain ⟨digits, hlength, hd, hs | hs⟩ := h
  · exact Or.inl ⟨digits, hs, hlength, hd⟩
  · obtain ⟨t, rfl, ht⟩ := eq_append_lineEnd hs
    exact Or.inr ⟨t, rfl, digits, ht, hlength, hd⟩

theorem identifier_cases (h : Identifier s) : ExactName s ∨ ∃ t, s = t ++ "\n" ∧ ExactName t := by
  obtain ⟨c, cs, hc, hcs, hs | hs⟩ := h
  · exact Or.inl ⟨c, cs, hs, hc, hcs⟩
  · obtain ⟨t, rfl, ht⟩ := eq_append_lineEnd hs
    exact Or.inr ⟨t, rfl, c, cs, ht, hc, hcs⟩

theorem not_nameStart_lineEnd : ¬NameStart '\n' := by
  intro h
  simp [NameStart, Char.le_def] at h

theorem not_namePart_lineEnd : ¬NamePart '\n' := by
  intro h
  rcases h with h | h
  · exact not_nameStart_lineEnd h
  · simp [Char.le_def] at h

theorem ExactColor.no_lineEnd (h : ExactColor s) : '\n' ∉ s.toList := by
  obtain ⟨digits, hs, -, hd⟩ := h
  intro hmem
  rw [hs, List.mem_cons] at hmem
  rcases hmem with heq | hmem
  · exact absurd heq (by decide)
  · exact Rgb.ne_lineEnd_of_hexDigit (hd _ hmem) rfl

theorem ExactName.no_lineEnd (h : ExactName s) : '\n' ∉ s.toList := by
  obtain ⟨c, cs, hs, hc, hcs⟩ := h
  intro hmem
  rw [hs, List.mem_cons] at hmem
  rcases hmem with rfl | hmem
  · exact not_nameStart_lineEnd hc
  · exact not_namePart_lineEnd (hcs _ hmem)

theorem exactColor_iff (h : HexColor s) : ExactColor s ↔ '\n' ∉ s.toList := by
  refine ⟨ExactColor.no_lineEnd, fun hnone => ?_⟩
  rcases hexColor_cases h with hexact | ⟨t, rfl, -⟩
  · exact hexact
  · exact absurd (lineEnd_mem t) hnone

theorem exactName_iff (h : Identifier s) : ExactName s ↔ '\n' ∉ s.toList := by
  refine ⟨ExactName.no_lineEnd, fun hnone => ?_⟩
  rcases identifier_cases h with hexact | ⟨t, rfl, -⟩
  · exact hexact
  · exact absurd (lineEnd_mem t) hnone

end Shape

/-! ## Reading the fallback color -/

namespace Rgb

open Shape

variable {s t : String}

/-- A text that is read as a color with channels between zero and one. -/
def Reads (s : String) : Prop := ∃ c, ofHex s = .ok c ∧ ∀ x ∈ c.channels, x.InUnitRange

theorem reads_of_exact (h : ExactColor s) : Reads s := by
  obtain ⟨digits, hs, hlength, hd⟩ := h
  exact ofHex_of_digits hs hd hlength

/-- A line end behind the digits counts as a seventh. -/
theorem ofHex_of_lineEnd (h : ExactColor t) : ofHex (t ++ "\n") = .error (.notAColor (t ++ "\n")) := by
  obtain ⟨digits, ht, hlength, hd⟩ := h
  have htext : (t ++ "\n").toList = '#' :: (digits ++ ['\n']) := by
    rw [String.toList_append, ht]
    rfl
  refine ofHex_of_length htext ?_ ?_
  · intro c hc
    rcases List.mem_append.mp hc with hc | hc
    · exact ne_mark_of_hexDigit (hd c hc)
    · rw [List.mem_singleton.mp hc]
      decide
  · rw [List.length_append, hlength]
    decide

end Rgb

/-! ## Accepted configurations -/

namespace ShaderConfig

open Shape

variable {entries : Entries Value}

/-- The fallback color, if there is one, has six digits and is read, and the names of the palette
are identifiers. -/
structure Exact (entries : Entries Value) : Prop where
  fallback : MayHave "fallback_color" (fun v => ∃ s, v = .str s ∧ ExactColor s ∧ Rgb.Reads s) entries
  names : ∀ name ∈ Entries.keys (colorEntries entries), ExactName name

/-- A line end stands neither in the fallback color nor in a name of the palette. -/
structure OneLine (entries : Entries Value) : Prop where
  fallback : ∀ s, Entries.get? "fallback_color" entries = some (.str s) → '\n' ∉ s.toList
  names : ∀ name ∈ Entries.keys (colorEntries entries), '\n' ∉ name.toList

theorem identifier_of_name (h : Shape.Config entries) {name : String}
    (hname : name ∈ Entries.keys (colorEntries entries)) : Identifier name := by
  have hcolors : Shape.Colors (colorEntries entries) :=
    entriesOf_of_mayHave (entriesOf_of_mapping (field_of_has h.palette)).colors Shape.each_nil
  obtain ⟨⟨key, v⟩, hmem, rfl⟩ := List.mem_map.mp hname
  exact (hcolors key v hmem).1

theorem exact_iff_oneLine (h : Shape.Config entries) : Exact entries ↔ OneLine entries := by
  constructor
  · intro hexact
    refine ⟨fun s hs => ?_, fun name hname => (hexact.names name hname).no_lineEnd⟩
    obtain ⟨t, ht, hcolor, -⟩ := hexact.fallback _ hs
    cases ht
    exact hcolor.no_lineEnd
  · intro hone
    refine ⟨fun v hv => ?_, fun name hname => ?_⟩
    · obtain ⟨s, rfl, hs⟩ := h.fallbackColor v hv
      have hcolor := (exactColor_iff hs).mpr (hone.fallback s hv)
      exact ⟨s, rfl, hcolor, Rgb.reads_of_exact hcolor⟩
    · exact (exactName_iff (identifier_of_name h hname)).mpr (hone.names name hname)

/-- In every accepted value the fallback color is exact and read, or has one line end more and is not
read; a name is exact or has one line end more; and everything is exact when no line end stands there. -/
theorem accepted_texts {v : Value} (h : (judge v).ok = true) :
    ∃ entries, v = .map entries ∧
      (∀ w, Entries.get? "fallback_color" entries = some w → ∃ s, w = .str s ∧
        (ExactColor s ∧ Rgb.Reads s ∨
          ∃ t, s = t ++ "\n" ∧ ExactColor t ∧ Rgb.ofHex s = .error (.notAColor s))) ∧
      (∀ name ∈ Entries.keys (colorEntries entries), ExactName name ∨ ∃ t, name = t ++ "\n" ∧ ExactName t) ∧
      (Exact entries ↔ OneLine entries) := by
  have hpassed : judge v = .passed := by
    cases hv : judge v <;> rw [hv] at h <;> first | rfl | cases h
  obtain ⟨entries, rfl, hc⟩ := judge_eq_passed_iff.mp hpassed
  refine ⟨entries, rfl, fun w hw => ?_, fun name hname => ?_, exact_iff_oneLine hc⟩
  · obtain ⟨s, rfl, hs⟩ := hc.fallbackColor w hw
    refine ⟨s, rfl, ?_⟩
    rcases hexColor_cases hs with hexact | ⟨t, rfl, hexact⟩
    · exact Or.inl ⟨hexact, Rgb.reads_of_exact hexact⟩
    · exact Or.inr ⟨t, rfl, hexact, Rgb.ofHex_of_lineEnd hexact⟩
  · exact identifier_cases (identifier_of_name hc hname)

/-- A configuration with the given fallback color and one color in its palette. -/
def colored (fallback name : String) : Entries Value := [
  ("id", .int 1),
  ("name", .str "A"),
  ("fallback_color", .str fallback),
  ("noise", .str "hash"),
  ("time", .map [("scale", .int 1)]),
  ("palette", .map [("colors", .map [(name, .list [.int 0, .int 0, .int 1])])]),
  ("effect", .str "stippled")]

theorem names_colored (fallback name : String) : Entries.keys (colorEntries (colored fallback name)) = [name] := rfl

theorem colored_exact : (judge (.map (colored "#A0b1C2" "SKY"))).ok = true ∧ Exact (colored "#A0b1C2" "SKY") := by
  have hok : (judge (.map (colored "#A0b1C2" "SKY"))).ok = true := by decide +kernel
  obtain ⟨entries, heq, -, -, hiff⟩ := accepted_texts hok
  cases heq
  refine ⟨hok, hiff.mpr ⟨fun s hs => ?_, fun name hname => ?_⟩⟩
  · cases hs
    decide
  · rw [names_colored] at hname
    cases List.mem_singleton.mp hname
    decide

/-- Six digits and a line end are accepted and not read, and so is a name with a line end. -/
theorem line_ends_accepted :
    (judge (.map (colored "#A0b1C2\n" "SKY\n"))).ok = true ∧ ¬ExactColor "#A0b1C2\n" ∧
      Rgb.ofHex "#A0b1C2\n" = .error (.notAColor "#A0b1C2\n") ∧
      ∃ name ∈ Entries.keys (colorEntries (colored "#A0b1C2\n" "SKY\n")), ¬ExactName name := by
  refine ⟨by decide +kernel, fun h => h.no_lineEnd (by decide), rfl, "SKY\n", List.mem_singleton_self _, ?_⟩
  exact fun h => h.no_lineEnd (by decide)

end ShaderConfig

end ShaderLoom
