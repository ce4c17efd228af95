/-
  ShaderLoom.Proofs.Text.SnakeCase — keys in their two spellings.

  A key in ASCII is respelled once and for all: what comes out has no capital and no underscore at its front
  (`respell_ascii`, `head?_snakeChars`), and such a key stays as it is (`snakeChars_eq_self`). A name of words has
  two spellings, with underscores between the words (`KeyName.snake`) or with a capital for each word after the
  first (`KeyName.camel`). Every capital becomes the underscore and the letter it was made from
  (`flatMap_capitalized`), so both spellings name one key (`snakeCase_spellings`), and a mapping may have each of
  its keys in either (`ShaderConfig.ofValue_spelling`, `Vignette.override_spelling`).
-/

import ShaderLoom.Config.Decode
import ShaderLoom.Vignette

namespace ShaderLoom

namespace Text

/-! ## Keys in ASCII -/

variable {c : Char} {cs : List Char}

theorem respell_of_not_capital (h : isCapital c = false) : respell c = [c] := by simp [respell, h]

theorem forall_below {P : Char → Prop} {b : Nat} (h : ∀ n < b, P (Char.ofNat n)) (c : Char) (hc : c.toNat < b) : P c :=
  Char.ofNat_toNat c ▸ h c.toNat hc

theorem respell_ascii (h : c.toNat < 128) : ∀ d ∈ respell c, isCapital d = false := by
  have hall := forall_below (P := fun c => (respell c).all (fun d => !isCapital d) = true) (by decide +kernel) c h
  simpa using hall

theorem flatMap_respell (h : ∀ c ∈ cs, isCapital c = false) : cs.flatMap respell = cs := by
  induction cs with
  | nil => rfl
  | cons c cs ih =>
    obtain ⟨hc, hcs⟩ := List.forall_mem_cons.mp h
    rw [List.flatMap_cons, respell_of_not_capital hc, ih hcs, List.singleton_append]

theorem dropWhile_underscore (h : cs.head? ≠ some '_') : cs.dropWhile (· == '_') = cs := by
  cases cs with
  | nil => rfl
  | cons c cs => exact List.dropWhile_cons_of_neg (by simpa using h)

theorem snakeChars_eq_self (h : ∀ c ∈ cs, isCapital c = false) (hhead : cs.head? ≠ some '_') : snakeChars cs = cs := by
  rw [snakeChars, flatMap_respell h, dropWhile_underscore hhead]

theorem not_capital_snakeChars (h : ∀ c ∈ cs, c.toNat < 128) : ∀ d ∈ snakeChars cs, isCapital d = false := by
  intro d hd
  have hmem : d ∈ cs.flatMap respell := (List.dropWhile_suffix _).subset hd
  obtain ⟨c, hc, hd⟩ := List.mem_flatMap.mp hmem
  exact respell_ascii (h c hc) d hd

theorem head?_snakeChars (cs : List Char) : (snakeChars cs).head? ≠ some '_' := by
  unfold snakeChars
  induction cs.flatMap respell with
  | nil => simp
  | cons c rest ih =>
    by_cases hc : c = '_'
    · simpa [hc] using ih
    · simp [hc]

/-! ## Names of words -/

/-- A small letter, and small letters and digits behind it. -/
def isKeyWord : List Char → Bool
  | [] => false
  | c :: rest => c.isLower && rest.all fun d => d.isLower || d.isDigit

/-- A name of one word or more. -/
structure KeyName where
  first : List Char
  later : List (List Char)
  spelled : (first :: later).all isKeyWord = true := by decide

/-- A word with a capital for its first letter. -/
def capitalized : List Char → List Char
  | [] => []
  | c :: rest => c.toUpper :: rest

namespace KeyName

/-- The words with one underscore between each two of them. -/
def snake (name : KeyName) : String := String.ofList (['_'].intercalate (name.first :: name.later))

/-- The words put together, each after the first with a capital. -/
def camel (name : KeyName) : String := String.ofList (name.first ++ name.later.flatMap capitalized)

/-- The name in one of its spellings. -/
def spelling (capitals : Bool) (name : KeyName) : String := if capitals then name.camel else name.snake

theorem first_word (name : KeyName) : isKeyWord name.first = true :=
  List.all_eq_true.mp name.spelled _ List.mem_cons_self

theorem later_word (name : KeyName) : ∀ w ∈ name.later, isKeyWord w = true :=
  fun w hw => List.all_eq_true.mp name.spelled w (List.mem_cons_of_mem _ hw)

end KeyName

/-! ## Both spellings -/

variable {w : List Char} {ws : List (List Char)}

theorem isLower_iff : c.isLower = true ↔ 97 ≤ c.toNat ∧ c.toNat ≤ 122 := by
  show (decide ('a'.val ≤ c.val) && decide (c.val ≤ 'z'.val)) = true ↔ _
  simp [UInt32.le_iff_toNat_le, ← Char.toNat_val]

theorem isDigit_iff : c.isDigit = true ↔ 48 ≤ c.toNat ∧ c.toNat ≤ 57 := by
  simp [Char.isDigit, UInt32.le_iff_toNat_le, ← Char.toNat_val]

theorem not_capital_of_small (h : c.isLower = true ∨ c.isDigit = true) : isCapital c = false := by
  rw [isLower_iff, isDigit_iff] at h
  have hascii : c.toNat < 128 := by omega
  have hcapital : ¬(65 ≤ c.toNat ∧ c.toNat ≤ 90) := by omega
  rw [isCapital, if_pos hascii]
  simpa [Char.le_def, UInt32.le_iff_toNat_le, ← Char.toNat_val] using hcapital

/-- A capital goes back to an underscore and the letter it was made from. -/
theorem respell_toUpper (h : c.isLower = true) : respell c.toUpper = ['_', c] := by
  obtain ⟨hlow, hhigh⟩ := isLower_iff.mp h
  refine forall_below (P := fun c => 97 ≤ c.toNat → respell c.toUpper = ['_', c]) (b := 123) ?_ c (by omega) hlow
  decide +kernel

theorem isKeyWord_spec (h : isKeyWord w = true) :
    ∃ c rest, w = c :: rest ∧ c.isLower = true ∧ ∀ d ∈ w, isCapital d = false := by
  cases w with
  | nil => cases h
  | cons c rest =>
    simp only [isKeyWord, Bool.and_eq_true, List.all_eq_true, Bool.or_eq_true] at h
    obtain ⟨hc, hrest⟩ := h
    refine ⟨c, rest, rfl, hc, List.forall_mem_cons.mpr ⟨not_capital_of_small (Or.inl hc), ?_⟩⟩
    intro d hd
    exact not_capital_of_small (hrest d hd)

theorem flatMap_capitalized (h : isKeyWord w = true) : (capitalized w).flatMap respell = '_' :: w := by
  obtain ⟨c, rest, hw, hc, hcapital⟩ := isKeyWord_spec h
  subst hw
  have hrest := flatMap_respell (List.forall_mem_cons.mp hcapital).2
  rw [capitalized, List.flatMap_cons, respell_toUpper hc, hrest]
  rfl

theorem flatMap_words (h : ∀ w ∈ ws, isKeyWord w = true) :
    (ws.flatMap capitalized).flatMap respell = ws.flatMap ('_' :: ·) := by
  induction ws with
  | nil => rfl
  | cons w ws ih =>
    obtain ⟨hw, hws⟩ := List.forall_mem_cons.mp h
    rw [List.flatMap_cons, List.flatMap_append, flatMap_capitalized hw, ih hws, List.flatMap_cons]

theorem intercalate_words (w : List Char) (ws : List (List Char)) :
    ['_'].intercalate (w :: ws) = w ++ ws.flatMap ('_' :: ·) := by
  induction ws generalizing w with
  | nil => simp
  | cons v ws ih => rw [List.intercalate_cons_cons, ih, List.flatMap_cons]; simp

namespace KeyName

variable (name : KeyName)

theorem head?_words (rest : List Char) : (name.first ++ rest).head? ≠ some '_' := by
  obtain ⟨c, cs, hfirst, hc, -⟩ := isKeyWord_spec name.first_word
  have hne : c ≠ '_' := by
    intro heq
    subst heq
    revert hc
    decide
  simpa [hfirst] using hne

theorem toList_snake : name.snake.toList = name.first ++ name.later.flatMap ('_' :: ·) := by
  rw [snake, String.toList_ofList, intercalate_words]

/-- The capitals tell where the words meet. -/
theorem snakeCase_camel : snakeCase name.camel = name.snake := by
  obtain ⟨-, -, -, -, hfirst⟩ := isKeyWord_spec name.first_word
  rw [← String.toList_inj, toList_snake, snakeCase, String.toList_ofList, camel, String.toList_ofList, snakeChars,
    List.flatMap_append, flatMap_respell hfirst, flatMap_words name.later_word, dropWhile_underscore (name.head?_words _)]

theorem snakeCase_snake : snakeCase name.snake = name.snake := by
  obtain ⟨-, -, -, -, hfirst⟩ := isKeyWord_spec name.first_word
  have hsmall : ∀ c ∈ name.snake.toList, isCapital c = false := by
    rw [toList_snake]
    refine List.forall_mem_append.mpr ⟨hfirst, fun d hd => ?_⟩
    obtain ⟨w, hw, hd⟩ := List.mem_flatMap.mp hd
    rcases List.mem_cons.mp hd with hd | hd
    · subst hd
      decide
    · obtain ⟨-, -, -, -, hcapital⟩ := isKeyWord_spec (name.later_word w hw)
      exact hcapital d hd
  rw [snakeCase, snakeChars_eq_self hsmall (toList_snake name ▸ name.head?_words _), String.ofList_toList]

theorem snakeCase_spelling (capitals : Bool) : snakeCase (name.spelling capitals) = name.snake := by
  cases capitals with
  | true => exact name.snakeCase_camel
  | false => exact name.snakeCase_snake

end KeyName

/-- A key in ASCII comes out without capitals, without an underscore at its front and for good. A name has one key
    in both of its spellings, so two names are not spelled alike with capitals. -/
theorem snakeCase_spellings :
    (∀ key : String, (∀ c ∈ key.toList, c.toNat < 128) →
      (∀ c ∈ (snakeCase key).toList, isCapital c = false) ∧ (snakeCase key).toList.head? ≠ some '_' ∧
        snakeCase (snakeCase key) = snakeCase key) ∧
    (∀ name : KeyName, snakeCase name.camel = name.snake) ∧
    ∀ a b : KeyName, a.snake ≠ b.snake → a.camel ≠ b.camel := by
  refine ⟨?_, KeyName.snakeCase_camel, ?_⟩
  · intro key hascii
    have hchars : (snakeCase key).toList = snakeChars key.toList := String.toList_ofList
    have hcapital := not_capital_snakeChars hascii
    have hhead := head?_snakeChars key.toList
    refine ⟨hchars ▸ hcapital, hchars ▸ hhead, ?_⟩
    rw [snakeCase, hchars, snakeChars_eq_self hcapital hhead]
    rfl
  · intro a b hne heq
    apply hne
    rw [← a.snakeCase_camel, heq, b.snakeCase_camel]

/-- Words that meet in two places. -/
def aBc : KeyName := { first := ['a'], later := [['b', 'c']] }

def abC : KeyName := { first := ['a', 'b'], later := [['c']] }

/-- Four capitals in a row behind underscores, and two names of the same letters. -/
theorem cramped_spellings :
    (∀ c ∈ "__HTMLKey2".toList, c.toNat < 128) ∧ snakeCase "__HTMLKey2" = "h_t_m_l_key2" ∧
      snakeCase "h_t_m_l_key2" = "h_t_m_l_key2" ∧ aBc.snake ≠ abC.snake ∧ aBc.camel ≠ abC.camel := by
  have hascii : ∀ c ∈ "__HTMLKey2".toList, c.toNat < 128 := by simp
  have hkey : snakeCase "__HTMLKey2" = "h_t_m_l_key2" := by decide +kernel
  have hnames : aBc.snake ≠ abC.snake := by decide
  obtain ⟨hfixed, -, hinjective⟩ := snakeCase_spellings
  obtain ⟨-, -, htwice⟩ := hfixed "__HTMLKey2" hascii
  rw [hkey] at htwice
  exact ⟨hascii, hkey, htwice, hnames, hinjective aBc abC hnames⟩

/-- Beyond ASCII a capital may be its own small form. -/
example : isCapital (Char.ofNat 0x1D400) = true ∧
    snakeChars [Char.ofNat 0x1D400] = [Char.ofNat 0x1D400] := by decide +kernel

end Text

/-! ## Mappings -/

open Text

/-- A configuration may have each of its keys in either spelling. -/
theorem ShaderConfig.ofValue_spelling (fields : List (KeyName × Bool × Value)) :
    ofValue (.map (fields.map fun (name, capitals, value) => (name.spelling capitals, value))) =
      ofValue (.map (fields.map fun (name, _, value) => (name.snake, value))) := by
  show ofNormalized _ = ofNormalized _
  simp only [Entries.mapKeys, List.map_map, Function.comp_def, KeyName.snakeCase_spelling, KeyName.snakeCase_snake]

/-- So may the parameters of a vignette. -/
theorem Vignette.override_spelling (v : Vignette) (name : KeyName) (capitals : Bool) (value : Value) :
    v.override (name.spelling capitals) value = v.override name.snake value := by
  simp only [override, name.snakeCase_spelling, name.snakeCase_snake]

end ShaderLoom
