/-
  ShaderLoom.Proofs.Json.Line — the line of a value.

  Values that differ in the order of keys only have one line (`line_eq_of_reordered`). A line is
  made of printing ASCII characters (`plain_line`), so it holds no line end, and it does not start
  with a blank or with what closes a list (`head_line`).
-/

import ShaderLoom.Proofs.Json.Number
import ShaderLoom.Proofs.Json.Text
import ShaderLoom.Proofs.Number.Numeral
import ShaderLoom.Proofs.Value.Reordered

namespace ShaderLoom.Json

variable {v w : Value} {items : List Value} {entries : Entries Value} {a b s : String} {parts : List String}

theorem itemLines_eq (items : List Value) : itemLines items = items.map line := by
  induction items with
  | nil => rfl
  | cons v vs ih => rw [itemLines, ih, List.map_cons]

theorem memberLines_eq (entries : Entries Value) : memberLines entries = Entries.mapValues line entries := by
  induction entries with
  | nil => rfl
  | cons p rest ih =>
    rw [memberLines, ih]
    rfl

/-- A key and the line of its value. -/
def memberText (member : String × String) : String := textLine member.1 ++ ": " ++ member.2

theorem line_list (items : List Value) : line (.list items) = "[" ++ ", ".intercalate (items.map line) ++ "]" := by
  rw [line, itemLines_eq]

theorem line_map (entries : Entries Value) : line (.map entries) =
    "\x7b" ++ ", ".intercalate ((Entries.sorted (Entries.mapValues line entries)).map memberText) ++ "\x7d" := by
  rw [line, memberLines_eq]
  rfl

/-! ## The order of keys -/

theorem map_eq_of_forall₂ {α β : Type} {R : α → α → Prop} {f : α → β} {vs ws : List α} (h : List.Forall₂ R vs ws)
    (hf : ∀ v ∈ vs, ∀ w, R v w → f v = f w) : vs.map f = ws.map f := by
  induction h with
  | nil => rfl
  | cons hR _ ih =>
    rw [List.map_cons, List.map_cons, hf _ List.mem_cons_self _ hR, ih fun v hv => hf v (List.mem_cons_of_mem _ hv)]

/-- The order in which keys were written does not show. -/
theorem line_eq_of_reordered (hv : v.isKeyed = true) (h : v.Reordered w) : line v = line w := by
  induction v using Value.induction generalizing w with
  | null => cases h; rfl
  | bool b => cases h; rfl
  | int n => cases h; rfl
  | float x => cases h; rfl
  | str s => cases h; rfl
  | list items ih =>
    cases h with
    | refl => rfl
    | list hitems =>
      have hkeyed := Value.itemsKeyed_iff.mp hv
      rw [line_list, line_list, map_eq_of_forall₂ hitems fun v hv w => ih v hv (hkeyed v hv)]
  | map entries ih =>
    cases h with
    | refl => rfl
    | @map _ other reordered hkeys hvalues hperm =>
      obtain ⟨honce, hkeyed⟩ := Value.isKeyed_map.mp hv
      have hlines : (Entries.values entries).map line = (Entries.values other).map line := by
        refine map_eq_of_forall₂ hvalues fun v hv w => ?_
        obtain ⟨p, hp, rfl⟩ := List.mem_map.mp hv
        exact ih p hp (hkeyed p hp)
      have hsame : Entries.mapValues line entries = Entries.mapValues line other :=
        Entries.mapValues_congr hkeys hlines
      have hsorted : Entries.sorted (Entries.mapValues line other) = Entries.sorted (Entries.mapValues line reordered) := by
        refine Entries.sorted_eq_of_perm ?_ (hperm.map _)
        rw [Entries.keys_mapValues, ← hkeys]
        exact honce
      rw [line_map, line_map, hsame, hsorted]

/-! ## Characters -/

def Plain (s : String) : Prop := ∀ c ∈ s.toList, isPlain c = true

instance (s : String) : Decidable (Plain s) := decidable_of_iff (s.toList.all isPlain = true) List.all_eq_true

theorem plain_append (ha : Plain a) (hb : Plain b) : Plain (a ++ b) := by
  rw [Plain, String.toList_append]
  exact List.forall_mem_append.mpr ⟨ha, hb⟩

theorem plain_intercalate (hs : Plain s) (hparts : ∀ a ∈ parts, Plain a) : Plain (s.intercalate parts) := by
  induction parts with
  | nil => exact fun _ h => nomatch h
  | cons a rest ih =>
    have ha : Plain a := hparts a List.mem_cons_self
    have hrest : ∀ b ∈ rest, Plain b := fun b hb => hparts b (List.mem_cons_of_mem _ hb)
    cases rest with
    | nil => rwa [String.intercalate_singleton]
    | cons b rest =>
      rw [String.intercalate_cons_cons]
      exact plain_append (plain_append ha hs) (ih hrest)

theorem plain_of_numeral (h : Numeral s.toList) : Plain s := by
  have hall : numerals.all isPlain = true := by decide
  exact fun c hc => List.all_eq_true.mp hall c (mem_numerals (h c hc))

theorem plain_textLine (s : String) : Plain (textLine s) := by
  rw [Plain, textLine, String.toList_ofList]
  refine List.forall_mem_cons.mpr ⟨by decide, List.forall_mem_append.mpr ⟨fun c hc => ?_,
    List.forall_mem_singleton.mpr (by decide)⟩⟩
  obtain ⟨d, _, hc⟩ := List.mem_flatMap.mp hc
  exact isPlain_escapedChar d c hc

theorem toList_numberLine (negative : Bool) (p : Fin Binary64.span) :
    (numberLine (.finite negative p)).toList = Binary64.shortestText (.finite negative p) := String.toList_ofList

theorem plain_numberLine (x : Binary64) : Plain (numberLine x) := by
  cases x with
  | nan => decide
  | infinite negative => cases negative <;> decide
  | finite negative p => exact plain_of_numeral (toList_numberLine negative p ▸ Binary64.numeral_shortestText _)

theorem plain_memberText {member : String × String} (h : Plain member.2) : Plain (memberText member) :=
  plain_append (plain_append (plain_textLine member.1) (by decide)) h

theorem plain_line (v : Value) : Plain (line v) := by
  induction v using Value.induction with
  | null => decide
  | bool b => cases b <;> decide
  | int n => exact plain_of_numeral (numeral_intText n)
  | float x => exact plain_numberLine x
  | str s => exact plain_textLine s
  | list items ih =>
    have hitems : ∀ a ∈ items.map line, Plain a := List.forall_mem_map.mpr ih
    rw [line_list]
    exact plain_append (plain_append (by decide) (plain_intercalate (by decide) hitems)) (by decide)
  | map entries ih =>
    have hmembers : ∀ a ∈ (Entries.sorted (Entries.mapValues line entries)).map memberText, Plain a := by
      refine List.forall_mem_map.mpr fun member hmember => plain_memberText ?_
      obtain ⟨p, hp, rfl⟩ := List.mem_map.mp ((Entries.sorted_perm _).mem_iff.mp hmember)
      exact ih p hp
    rw [line_map]
    exact plain_append (plain_append (by decide) (plain_intercalate (by decide) hmembers)) (by decide)

/-! ## The first character -/

/-- Characters that no line starts with. -/
def isOutside (c : Char) : Bool := isSpace c || c == ']'

/-- Characters that start text, lists and mappings. -/
def opens (c : Char) : Bool := c == '"' || c == '[' || c == '\x7b'

/-- A text that starts with a word or a number. -/
def StartsScalar (s : String) : Prop := ∃ c cs, s.toList = c :: cs ∧ isOutside c = false ∧ opens c = false

theorem StartsScalar.exists_head (h : StartsScalar s) : ∃ c cs, s.toList = c :: cs ∧ isOutside c = false := by
  obtain ⟨c, cs, hs, hc, _⟩ := h
  exact ⟨c, cs, hs, hc⟩

theorem startsScalar_null : StartsScalar (line .null) :=
  ⟨'n', "ull".toList, by decide, by decide, by decide⟩

theorem startsScalar_bool (b : Bool) : StartsScalar (line (.bool b)) := by
  cases b with
  | true => exact ⟨'t', "rue".toList, by decide, by decide, by decide⟩
  | false => exact ⟨'f', "alse".toList, by decide, by decide, by decide⟩

theorem startsScalar_of_numeral (h : Numeral s.toList) (hne : s.toList ≠ []) : StartsScalar s := by
  have hall : (numerals.all fun c => isOutside c == false && opens c == false) = true := by decide
  obtain ⟨c, cs, hs⟩ := List.exists_cons_of_ne_nil hne
  have hc := List.all_eq_true.mp hall c (mem_numerals (h c (hs ▸ List.mem_cons_self)))
  rw [Bool.and_eq_true, beq_iff_eq, beq_iff_eq] at hc
  exact ⟨c, cs, hs, hc⟩

theorem startsScalar_intText (n : Int) : StartsScalar (intText n) := by
  refine startsScalar_of_numeral (numeral_intText n) ?_
  rw [intText, String.toList_ofList]
  exact List.append_ne_nil_of_right_ne_nil _ (Decimal.digitText_ne_nil _)

theorem startsScalar_numberLine (x : Binary64) : StartsScalar (numberLine x) := by
  cases x with
  | nan => exact ⟨'N', ['a', 'N'], by decide, by decide, by decide⟩
  | infinite negative =>
    cases negative with
    | false => exact ⟨'I', "nfinity".toList, by decide, by decide, by decide⟩
    | true => exact ⟨'-', "Infinity".toList, by decide, by decide, by decide⟩
  | finite negative p =>
    refine startsScalar_of_numeral (toList_numberLine negative p ▸ Binary64.numeral_shortestText _) fun hnil => ?_
    have hread : scalar ((numberLine (.finite negative p)).toList ++ []) = .ok (.float (.finite negative p), []) :=
      scalar_numberLine _ rfl
    rw [hnil] at hread
    cases hread

theorem head_line (v : Value) : ∃ c cs, (line v).toList = c :: cs ∧ isOutside c = false := by
  cases v with
  | null => exact startsScalar_null.exists_head
  | bool b => exact (startsScalar_bool b).exists_head
  | int n => exact (startsScalar_intText n).exists_head
  | float x => exact (startsScalar_numberLine x).exists_head
  | str s => exact ⟨'"', _, String.toList_ofList, by decide⟩
  | list items => exact ⟨'[', _, by rw [line_list, String.toList_append, String.toList_append]; rfl, by decide⟩
  | map entries => exact ⟨'\x7b', _, by rw [line_map, String.toList_append, String.toList_append]; rfl, by decide⟩

end ShaderLoom.Json
