/-
  ShaderLoom.Proofs.Program.Fragments — the fixed texts that a source is put together from.

  Noise and the helpers of effects are libraries (`Library`): rows of whole functions that are read the
  same whatever stands around them, and whose names are known (`Defines`). The part of an effect that
  stands in the entry point is a row of statements (`Body`): it opens no block, returns nothing and has
  the words of no morph. Neither closes a comment. Each text is read once for all that it is to be
  (`isLibrary`, `isBody`).
-/

import ShaderLoom.Proofs.Number.Numeral
import ShaderLoom.Proofs.Program.Items
import ShaderLoom.Program

namespace ShaderLoom

/-- The functions that a noise brings. -/
def NoiseKind.functions : NoiseKind → List String
  | simplex => ["mod289_3", "mod289_2", "permute", "snoise", "fbm"]
  | hash => ["hash", "noise", "fbm"]
  | both => ["mod289_3", "mod289_2", "permute", "snoise", "hash", "noise", "fbm"]

/-- The functions that an effect brings. -/
def EffectKind.functions : EffectKind → List String
  | domainWarp => ["domainWarp"]
  | domainWarpTiedye => ["tieDyeFlow", "domainWarp"]
  | multiSwirl => ["multiSwirl"]
  | auroraSpirals => ["polarSpiral", "auroraBands"]
  | cellular => ["reefPattern", "caustics"]
  | liquidMarble => ["marbleVein", "flowDistort"]
  | kaleidoscope => ["kaleidoscope", "petalPattern"]
  | flowingStreams => ["fluidFlow", "marbleSwirl"]
  | radialFlow => ["radialFlow", "flowLines"]
  | metaballs => ["metaball", "metaballs"]
  | chromaticBloom => ["bloom"]
  | layeredOrbs => ["orbLayer", "layeredOrbs"]
  | stippled => ["stipple"]
  | breathingNebula => ["breathe", "nebulaCloud"]
  | magneticField => ["fieldLine"]
  | crystalline => ["foamPattern", "wavePattern"]
  | inkBloom => ["inkSpread", "inkCloud"]
  | cellularMembrane => ["voronoiCell", "membrane"]
  | auroraCurtains => ["curtainWave", "auroraCurtain"]

namespace Program

open ShaderLoom.Lexeme ShaderLoom.Morph ShaderLoom.Text

/-- A property of a text, by its characters. -/
theorem of_chars {P : List Char → Prop} {text : String} (h : ∃ cs, text.toList = cs ∧ P cs) : P text.toList := by
  obtain ⟨cs, rfl, h⟩ := h
  exact h

/-- The characters of a fixed text; the texts are long, and to unfold `String.toList` of them takes long. -/
theorem toList_literal {text : String} {cs : List Char} (h : text = String.ofList cs) : text.toList = cs := by
  rw [h, String.toList_ofList]

theorem toList_fragments (ps : List String) : (fragments ps).toList = ['\n', '\n'].intercalate (ps.map String.toList) := by
  rw [fragments, String.toList_intercalate]
  rfl

theorem map_toList_cons {p : String} {cs : List Char} {ps : List String} {css : List (List Char)}
    (hp : p.toList = cs) (hps : ps.map String.toList = css) : (p :: ps).map String.toList = cs :: css := by
  rw [List.map_cons, hp, hps]

/-- The characters of a text in fragments, by those of each. -/
theorem toList_fragments_of {ps : List String} {css : List (List Char)} (h : ps.map String.toList = css) :
    (fragments ps).toList = ['\n', '\n'].intercalate css := by
  rw [toList_fragments, h]

/-- More characters than a fixed text has. -/
def textLimit : Nat := 10000

/-- The significant lexemes of a text that is cut off before the end of a comment, read with that end as
`isCut` reads them, so that a text is read once. -/
def cutLexemes (cs : List Char) : List Lexeme :=
  (read 0 (cs ++ ['*', '/'])).dropLast.dropLast.filter isSignificant

theorem cutLexemes_eq {cs : List Char} (h : isCut cs = true) : cutLexemes cs = significant cs := by
  have hparted : Parted cs ['*', '/'] := parted_of_isCut h (Or.inl rfl)
  have hend : lexemes ['*', '/'] = [(.mark, ['*']), (.mark, ['/'])] := by decide
  rw [cutLexemes, ← lexemes_eq_read, hparted, hend, List.append_cons, List.dropLast_concat, List.dropLast_concat]
  rfl

/-! ## Libraries -/

/-- The words that the morph pass looks for, and the name of the entry point. -/
def keywords : List (List Char) := [
  ['m', 'a', 'i', 'n'],
  ['u', 'n', 'i', 'f', 'o', 'r', 'm'],
  ['u', '_', 'm', 'o', 'r', 'p', 'h', 'P', 'r', 'o', 'g', 'r', 'e', 's', 's']]

/-- A row of whole functions without the words that matter to the morph pass. -/
structure Library (cs : List Char) : Prop where
  piece : Piece cs
  item : ∀ item ∈ items cs, IsItem item
  balanced : through 0 (significant cs) = some 0
  words : ∀ x ∈ significant cs, x.2 ∉ keywords
  inert : Inert cs
  short : cs.length ≤ textLimit

/-- A library of functions with these names. -/
structure Defines (names : List String) (cs : List Char) : Prop extends Library cs where
  named : (items cs).map functionName? = names.map some

def isLibrary (names : List String) (cs : List Char) : Bool :=
  let xs := cutLexemes cs
  isCut cs && cs.getLast?.all (!isBlank ·) && startsWith (!isBlank ·) cs &&
    (itemsFrom 0 xs).all (isItemFrom 0) && (itemsFrom 0 xs).map functionName? == names.map some &&
    through 0 xs == some 0 && xs.all (fun x => !keywords.contains x.2) &&
    (blockEnd? (cs ++ ['/'])).isNone && decide (cs.length ≤ textLimit)

theorem Defines.of_chars {names : List String} {text : String} {cs : List Char} (hcs : text.toList = cs)
    (h : isLibrary names cs = true) : Defines names text.toList := by
  subst hcs
  simp only [isLibrary, Bool.and_eq_true, List.all_eq_true, beq_iff_eq, Option.isNone_iff_eq_none,
    decide_eq_true_eq] at h
  obtain ⟨⟨⟨⟨⟨⟨⟨⟨hcut, hlast⟩, hstart⟩, hitems⟩, hnamed⟩, hbalanced⟩, hwords⟩, hend⟩, hshort⟩ := h
  rw [cutLexemes_eq hcut] at hitems hnamed hbalanced hwords
  exact {
    piece := piece_of_isCut hcut hlast hstart
    item := hitems
    named := hnamed
    balanced := hbalanced
    words := fun x hx => by simpa using hwords x hx
    inert := inert_of_test hend
    short := hshort }

set_option maxRecDepth 100000 in
theorem defines_simplex : Defines ["mod289_3", "mod289_2", "permute", "snoise"] Noise.simplex.toList :=
  .of_chars (toList_literal rfl) (by decide +kernel)

set_option maxRecDepth 100000 in
theorem defines_hash : Defines ["hash", "noise"] Noise.hash.toList :=
  .of_chars (toList_literal rfl) (by decide +kernel)

set_option maxRecDepth 100000 in
theorem defines_simplexFbm : Defines ["fbm"] Noise.simplexFbm.toList :=
  .of_chars (toList_literal rfl) (by decide +kernel)

set_option maxRecDepth 100000 in
theorem defines_hashFbm : Defines ["fbm"] Noise.hashFbm.toList :=
  .of_chars (toList_literal rfl) (by decide +kernel)

set_option maxRecDepth 100000 in
theorem defines_turbulence : Defines ["turbulence"] Noise.turbulence.toList :=
  .of_chars (toList_literal rfl) (by decide +kernel)

theorem library_noise {noise : NoiseKind} {f : String} (h : f ∈ noise.sources) : Library f.toList := by
  have hsources : noise.sources ⊆ [Noise.simplex, Noise.hash, Noise.simplexFbm, Noise.hashFbm] := by
    cases noise <;> simp [NoiseKind.sources]
  have hf := hsources h
  simp only [List.mem_cons, List.not_mem_nil, or_false] at hf
  rcases hf with rfl | rfl | rfl | rfl
  · exact defines_simplex.toLibrary
  · exact defines_hash.toLibrary
  · exact defines_simplexFbm.toLibrary
  · exact defines_hashFbm.toLibrary

theorem functions_noise (noise : NoiseKind) :
    (noise.sources.flatMap (items ·.toList)).map functionName? = noise.functions.map some := by
  cases noise <;>
    simp only [NoiseKind.sources, NoiseKind.functions, List.flatMap_cons, List.flatMap_nil, List.map_append, List.map_nil,
      defines_simplex.named, defines_hash.named, defines_simplexFbm.named, defines_hashFbm.named] <;> rfl

set_option maxRecDepth 100000 in
theorem defines_helpers (effect : EffectKind) : Defines effect.functions effect.effect.helpers.toList := by
  cases effect
  -- The two domain warps are put together from fragments.
  case domainWarp =>
    exact .of_chars (toList_fragments_of (map_toList_cons (toList_literal rfl) (map_toList_cons (toList_literal rfl) rfl)))
      (by decide +kernel)
  case domainWarpTiedye =>
    exact .of_chars (toList_fragments_of (map_toList_cons (toList_literal rfl) (map_toList_cons (toList_literal rfl) rfl)))
      (by decide +kernel)
  all_goals exact .of_chars (toList_literal rfl) (by decide +kernel)

/-! ## Statements -/

/-- Neither a brace nor a word that the morph pass looks for in an entry point. -/
def isQuiet (x : Lexeme) : Bool :=
  isFlat x && x.2 != ['r', 'e', 't', 'u', 'r', 'n'] &&
    x.2 != ['u', '_', 'm', 'o', 'r', 'p', 'h', 'P', 'r', 'o', 'g', 'r', 'e', 's', 's']

/-- Whole statements without blocks and returns. -/
structure Quiet (cs : List Char) : Prop where
  closed : Closed cs
  words : ∀ x ∈ significant cs, isQuiet x = true
  last : (significant cs).getLast? = some (mark ';')

theorem Quiet.append {u v : List Char} (hu : Quiet u) (hv : Quiet v) : Quiet (u ++ v) where
  closed := hu.closed.append hv.closed
  words := by
    rw [(hu.closed v).significant]
    exact List.forall_mem_append.mpr ⟨hu.words, hv.words⟩
  last := by
    rw [(hu.closed v).significant, List.getLast?_append, hv.last]
    rfl

def isOpening (cs : List Char) : Bool := isCut cs && (cutLexemes cs).all isQuiet

def isQuietText (cs : List Char) : Bool :=
  isOpening cs && cs.getLast?.all (!isBlank ·) && (cutLexemes cs).getLast? == some (.mark, [';'])

theorem opening_words {cs : List Char} (h : isOpening cs = true) : ∀ x ∈ significant cs, isQuiet x = true := by
  simp only [isOpening, Bool.and_eq_true, List.all_eq_true] at h
  exact cutLexemes_eq h.1 ▸ h.2

theorem quiet_of_isQuietText {cs : List Char} (h : isQuietText cs = true) : Quiet cs := by
  simp only [isQuietText, Bool.and_eq_true, beq_iff_eq] at h
  obtain ⟨⟨hopening, hlast⟩, hsemicolon⟩ := h
  have hcut := (Bool.and_eq_true_iff.mp hopening).1
  exact {
    closed := closed_of_isCut hcut hlast
    words := opening_words hopening
    last := cutLexemes_eq hcut ▸ hsemicolon }

theorem isSolid_of_isNumeral {c : Char} (h : isNumeral c = true) : isSolid c = true := by
  have hall : numerals.all isSolid = true := by decide +kernel
  exact List.all_eq_true.mp hall c (mem_numerals h)

theorem quiet_of_numeral {t : List Char} (ht : Numeral t) : ∀ x ∈ significant t, isQuiet x = true := by
  intro x hx
  have hchars : Numeral x.2 := fun c hc => ht c (mem_of_mem_significant hx hc)
  have hne : ∀ cs : List Char, ¬Numeral cs → x.2 ≠ cs := fun cs hcs heq => hcs (heq ▸ hchars)
  simp only [isQuiet, isFlat, opens, closes, Bool.and_eq_true, Bool.not_eq_true', beq_eq_false_iff_ne, bne_iff_ne]
  exact ⟨⟨⟨hne _ (by decide), hne _ (by decide)⟩, hne _ (by decide)⟩, hne _ (by decide)⟩

/-- A literal between the opening of statements and the rest of them. -/
theorem quiet_literal {a z : List Char} {b : Char} (x : Binary64) (decimals : Option Int) (ha : isOpening a = true)
    (hb : isBarrier b = true) (hw : isWord b = false) (hz : Quiet (b :: z)) :
    Quiet (a ++ ((Literal.ofNumber x decimals).toList ++ b :: z)) := by
  have hcut := (Bool.and_eq_true_iff.mp ha).1
  have hnumeral := Literal.numeral_literal x decimals
  have hsolid := fun c hc => isSolid_of_isNumeral (hnumeral c hc)
  have hne := Literal.literal_ne_nil x decimals
  have hsignificant := significant_splice (z := z) hcut hsolid hne hb hw
  exact {
    closed := closed_splice hcut hsolid hne hb hw hz.closed
    words := by
      rw [hsignificant]
      exact List.forall_mem_append.mpr
        ⟨opening_words ha, List.forall_mem_append.mpr ⟨quiet_of_numeral hnumeral, hz.words⟩⟩
    last := by
      rw [hsignificant, List.getLast?_append, List.getLast?_append, hz.last]
      rfl }

/-- Statements that stand apart in an entry point and close no comment. -/
structure Body (cs : List Char) : Prop where
  quiet : Quiet ('\n' :: '\n' :: cs)
  inert : Inert cs
  short : cs.length ≤ textLimit

def isBody (cs : List Char) : Bool :=
  isQuietText ('\n' :: '\n' :: cs) && (blockEnd? (cs ++ ['/'])).isNone && decide (cs.length ≤ textLimit)

theorem Body.of_chars {text : String} {cs : List Char} (hcs : text.toList = cs) (h : isBody cs = true) :
    Body text.toList := by
  subst hcs
  simp only [isBody, Bool.and_eq_true, Option.isNone_iff_eq_none, decide_eq_true_eq] at h
  obtain ⟨⟨hquiet, hend⟩, hshort⟩ := h
  exact ⟨quiet_of_isQuietText hquiet, inert_of_test hend, hshort⟩

set_option maxRecDepth 100000 in
theorem body_main (effect : EffectKind) : Body effect.effect.main.toList := by
  cases effect
  case domainWarp =>
    exact .of_chars (toList_fragments_of (map_toList_cons (toList_literal rfl) (map_toList_cons (toList_literal rfl) rfl)))
      (by decide +kernel)
  case domainWarpTiedye =>
    exact .of_chars (toList_fragments_of (map_toList_cons (toList_literal rfl)
      (map_toList_cons (toList_literal rfl) (map_toList_cons (toList_literal rfl) rfl)))) (by decide +kernel)
  all_goals exact .of_chars (toList_literal rfl) (by decide +kernel)

end Program

end ShaderLoom
