/-
  ShaderLoom.Proofs.Program.Constants — palette constants as lexemes.

  A name that the schema accepts is an identifier, perhaps with a line end behind it
  (`identifier`). Then its constant is read as `const float3 NAME = float3(r, g, b);`
  (`constantLexemes`), the channels being the lexemes of their literals, and nothing behind it
  changes that (`closed_constant`, `significant_constant`).
-/

import ShaderLoom.Proofs.Config.Settled
import ShaderLoom.Proofs.Program.Fragments

namespace ShaderLoom.Program

open ShaderLoom.Lexeme ShaderLoom.Morph ShaderLoom.Text

/-! ## Names -/

/-- A name without the line end that may stand behind it. -/
def identifier (name : String) : List Char := name.toList.takeWhile (· != '\n')

theorem isNameStart_of_shape {c : Char} (h : Shape.NameStart c) : isNameStart c = true := by
  simp only [isNameStart, isAsciiLetter, Bool.or_eq_true, Bool.and_eq_true, decide_eq_true_eq, beq_iff_eq]
  rcases h with h | h | h
  · exact Or.inl (Or.inr h)
  · exact Or.inl (Or.inl h)
  · exact Or.inr h

theorem isWord_of_shape {c : Char} (h : Shape.NamePart c) : isWord c = true := by
  rcases h with h | h
  · exact isWord_of_nameStart (isNameStart_of_shape h)
  · have hascii : c.toNat < 128 := Nat.lt_of_le_of_lt (UInt32.le_iff_toNat_le.mp h.2) (by decide)
    rw [isWord, if_pos hascii, decide_eq_true h.1, decide_eq_true h.2]
    simp

theorem identifier_spec {name : String} (h : Shape.Identifier name) :
    IsName (identifier name) ∧ (name.toList = identifier name ∨ name.toList = identifier name ++ ['\n']) := by
  obtain ⟨c, cs, hc, hcs, hspells⟩ := h
  have hname : IsName (c :: cs) := ⟨isNameStart_of_shape hc, fun d hd => isWord_of_shape (hcs d hd)⟩
  have hline : ∀ d ∈ c :: cs, (d != '\n') = true := by
    intro d hd
    rw [bne_iff_ne]
    rintro rfl
    have hword : isWord '\n' = true := by
      rcases List.mem_cons.mp hd with h | h
      · exact h ▸ isWord_of_nameStart hname.1
      · exact hname.2 _ h
    exact absurd hword (by decide)
  have hrun : ∀ rest, startsWith (· != '\n') rest = false → (c :: cs ++ rest).takeWhile (· != '\n') = c :: cs :=
    fun rest hrest => takeWhile_append_eq_left.mpr ⟨hline, hrest⟩
  rcases hspells with hs | hs
  · have hid : identifier name = c :: cs := by simpa [identifier, hs] using hrun [] rfl
    exact ⟨hid ▸ hname, Or.inl (hs.trans hid.symm)⟩
  · have hid : identifier name = c :: cs := by rw [identifier, hs, hrun ['\n'] rfl]
    exact ⟨hid ▸ hname, Or.inr (by rw [hs, hid])⟩

theorem isWord_of_isName {cs : List Char} (h : IsName cs) : ∀ c ∈ cs, isWord c = true := by
  cases cs with
  | nil => exact h.elim
  | cons c cs => exact List.forall_mem_cons.mpr ⟨isWord_of_nameStart h.1, h.2⟩

theorem isName_ne_nil {cs : List Char} (h : IsName cs) : cs ≠ [] := by
  rintro rfl
  exact h

theorem solid_of_isName {cs : List Char} (h : IsName cs) : ∀ c ∈ cs, isSolid c = true := by
  intro c hc
  have hword := isWord_of_isName h c hc
  have hblank : isBlank c = false := by
    cases hb : isBlank c with
    | false => rfl
    | true =>
      rw [(blank_spec hb).2.1] at hword
      cases hword
  have hslash : c ≠ '/' := by
    rintro rfl
    exact absurd hword (by decide)
  rw [isSolid, hblank, bne_iff_ne.mpr hslash]
  rfl

theorem significant_isName {cs : List Char} (h : IsName cs) : significant cs = [(.name, cs)] := by
  have := significant_name h (v := []) rfl
  rwa [List.append_nil, significant_nil] at this

/-! ## Constants -/

/-- The lexemes of a channel's literal. -/
def channelLexemes (x : Binary64) : List Lexeme := significant (Literal.ofNumber x (some 2)).toList

/-- `const float3 NAME = float3(r, g, b);` -/
def constantLexemes (color : String × Rgb) : List Lexeme :=
  [name "const", name "float3", (.name, identifier color.1), mark '=', name "float3", mark '('] ++
    (channelLexemes color.2.red ++ mark ',' :: (channelLexemes color.2.green ++
      mark ',' :: (channelLexemes color.2.blue ++ [mark ')', mark ';'])))

/-- What follows the name in a constant. -/
def channelsText (color : Rgb) : List Char :=
  (Literal.ofNumber color.red (some 2)).toList ++ ',' :: ' ' :: ((Literal.ofNumber color.green (some 2)).toList ++
    ',' :: ' ' :: ((Literal.ofNumber color.blue (some 2)).toList ++ [')', ';']))

/-- ` = float3(` -/
def constantMiddle : List Char := [' ', '=', ' ', 'f', 'l', 'o', 'a', 't', '3', '(']

theorem toList_constant (color : String × Rgb) : (Palette.constant color.1 color.2).toList =
    "const float3 ".toList ++ (color.1.toList ++ (constantMiddle ++ channelsText color.2)) := by
  have happend : ∀ opening name assign type red comma green blue close semicolon : String,
      (opening ++ name ++ assign ++ (type ++ red ++ comma ++ green ++ comma ++ blue ++ close) ++ semicolon).toList =
        opening.toList ++ (name.toList ++ ((assign.toList ++ type.toList) ++ (red.toList ++ (comma.toList ++
          (green.toList ++ (comma.toList ++ (blue.toList ++ (close.toList ++ semicolon.toList)))))))) := by
    intros
    simp only [String.toList_append, List.append_assoc]
  have hassign : " = ".toList = [' ', '=', ' '] := String.toList_ofList
  have htype : "float3(".toList = ['f', 'l', 'o', 'a', 't', '3', '('] := String.toList_ofList
  have hcomma : ", ".toList = [',', ' '] := String.toList_ofList
  have hend : ")".toList = [')'] := String.toList_ofList
  have hsemicolon : ";".toList = [';'] := String.toList_ofList
  refine (happend _ _ _ _ _ _ _ _ _ _).trans ?_
  rw [hassign, htype, hcomma, hend, hsemicolon]
  rfl

section

variable (x : Binary64) (decimals : Option Int)

theorem solid_literal : ∀ c ∈ (Literal.ofNumber x decimals).toList, isSolid c = true :=
  fun c hc => isSolid_of_isNumeral (Literal.numeral_literal x decimals c hc)

/-- A literal between two fixed texts. -/
theorem closed_literal {a z : List Char} {b : Char} (ha : isCut a = true) (hb : isBarrier b = true)
    (hw : isWord b = false) (hz : Closed (b :: z)) : Closed (a ++ ((Literal.ofNumber x decimals).toList ++ b :: z)) :=
  closed_splice ha (solid_literal x decimals) (Literal.literal_ne_nil x decimals) hb hw hz

theorem significant_literal {a z : List Char} {b : Char} (ha : isCut a = true) (hb : isBarrier b = true)
    (hw : isWord b = false) : significant (a ++ ((Literal.ofNumber x decimals).toList ++ b :: z)) =
      significant a ++ (significant (Literal.ofNumber x decimals).toList ++ significant (b :: z)) :=
  significant_splice ha (solid_literal x decimals) (Literal.literal_ne_nil x decimals) hb hw

end

theorem closed_channels (color : Rgb) {a : List Char} (ha : isCut a = true) : Closed (a ++ channelsText color) := by
  have hend : Closed [')', ';'] := closed_of_isCut (by decide) (by decide)
  have hcut : isCut [',', ' '] = true := by decide
  exact closed_literal _ _ ha (by decide) (by decide)
    (closed_literal _ _ hcut (by decide) (by decide)
      (closed_literal _ _ hcut (by decide) (by decide) hend))

theorem significant_channels (color : Rgb) {a : List Char} (ha : isCut a = true) :
    significant (a ++ channelsText color) = significant a ++
      (channelLexemes color.red ++ mark ',' :: (channelLexemes color.green ++
        mark ',' :: (channelLexemes color.blue ++ [mark ')', mark ';']))) := by
  have hcut : isCut [',', ' '] = true := by decide
  have hcomma : significant [',', ' '] = [mark ','] := by decide
  have hend : significant [')', ';'] = [mark ')', mark ';'] := by decide
  have hnext (x : Binary64) {b : Char} (z : List Char) (hb : isBarrier b = true) (hw : isWord b = false) :
      significant (',' :: ' ' :: ((Literal.ofNumber x (some 2)).toList ++ b :: z)) =
        mark ',' :: (channelLexemes x ++ significant (b :: z)) := by
    have := significant_literal x (some 2) (z := z) hcut hb hw
    rw [hcomma] at this
    exact this
  rw [channelsText, significant_literal _ _ ha (by decide) (by decide), hnext _ _ (by decide) (by decide),
    hnext _ _ (by decide) (by decide), hend]
  rfl

/-! ## The constant as a whole -/

theorem isCut_constant : isCut "const float3 ".toList = true ∧ isCut constantMiddle = true ∧
    isCut ('\n' :: constantMiddle) = true := by decide

theorem constant_of_identifier {color : String × Rgb} (h : Shape.Identifier color.1) :
    ∃ middle, (Palette.constant color.1 color.2).toList =
        "const float3 ".toList ++ (identifier color.1 ++ (middle ++ channelsText color.2)) ∧
      isCut middle = true ∧ significant middle = [mark '=', name "float3", mark '('] ∧
      ∃ b z, middle = b :: z ∧ isBarrier b = true ∧ isWord b = false := by
  obtain ⟨-, hspells⟩ := identifier_spec h
  rw [toList_constant]
  rcases hspells with hs | hs
  · refine ⟨constantMiddle, by rw [hs], isCut_constant.2.1, by decide, _, _, rfl, by decide, by decide⟩
  · refine ⟨'\n' :: constantMiddle, ?_, isCut_constant.2.2, by decide, _, _, rfl, by decide, by decide⟩
    rw [hs, List.append_assoc]
    rfl

theorem closed_constant {color : String × Rgb} (h : Shape.Identifier color.1) :
    Closed (Palette.constant color.1 color.2).toList := by
  obtain ⟨hname, -⟩ := identifier_spec h
  obtain ⟨middle, htext, hcut, -, b, z, rfl, hb, hw⟩ := constant_of_identifier h
  rw [htext]
  exact closed_splice isCut_constant.1 (solid_of_isName hname) (isName_ne_nil hname) hb hw (closed_channels _ hcut)

theorem significant_constant {color : String × Rgb} (h : Shape.Identifier color.1) :
    significant (Palette.constant color.1 color.2).toList = constantLexemes color := by
  obtain ⟨hname, -⟩ := identifier_spec h
  obtain ⟨middle, htext, hcut, hmiddle, b, z, rfl, hb, hw⟩ := constant_of_identifier h
  have hopening : significant "const float3 ".toList = [name "const", name "float3"] := by decide
  have hrest := significant_channels color.2 hcut
  rw [htext]
  show significant (_ ++ (_ ++ b :: (z ++ channelsText color.2))) = _
  rw [significant_splice isCut_constant.1 (solid_of_isName hname) (isName_ne_nil hname) hb hw, hopening,
    significant_isName hname]
  show _ ++ (_ ++ significant (b :: z ++ channelsText color.2)) = _
  rw [hrest, hmiddle]
  rfl

end ShaderLoom.Program
