/-
  ShaderLoom.Proofs.Token.Numbers — number tokens and what they read as.

  A number token is cut by one grammar and read by another. Without the letters at its end it is the spelling of
  a decimal (`Stands.of_number`, `Lexeme.spells_trimEnd`), and every spelling is read. So the question whether an
  argument is a literal worth one always has an answer (`unit?`), and `numbers_read` says it of every text: the
  fault that the pass is ready to pass over never comes up.
-/

import ShaderLoom.Morph.Wrap
import ShaderLoom.Proofs.Number.Spelled
import ShaderLoom.Proofs.Token.Complete

namespace ShaderLoom

namespace Lexeme

open ShaderLoom.Text

theorem first_number {c : Char} {rest : List Char} (h : (first c rest).1 = .number) :
    number? (c :: rest) = some (first c rest).2 := by
  unfold first at h ⊢
  cases hcomment : comment? (c :: rest) with
  | some text => simp [hcomment] at h
  | none =>
    by_cases hblank : isBlank c = true
    · simp [hcomment, hblank] at h
    cases hnumber : number? (c :: rest) with
    | some text => simp [hblank]
    | none =>
      by_cases hname : isNameStart c = true
      · simp [hcomment, hblank, hnumber, hname] at h
      · simp [hcomment, hblank, hnumber, hname] at h

theorem Stands.of_number {x : Lexeme} {v : List Char} (h : Stands x v) (hx : x.1 = .number) :
    number? (x.2 ++ v) = some x.2 := by
  obtain ⟨c, t, ht, hf⟩ := h
  rw [ht, List.cons_append, first_number (by rw [hf, hx]), hf, ht]

end Lexeme

namespace Token

open ShaderLoom.Reading (Spells)

/-- The text of a number token without the letters at its end. -/
def numeral (t : Token) : List Char := Text.trimEnd Lexeme.isSuffix t.text.toList

theorem exists_spells {source : String} {t : Token} (ht : t ∈ tokenize source) (hkind : t.kind = .number) :
    ∃ d, Spells t.numeral d := by
  obtain ⟨before, after, hcut⟩ := List.append_of_mem ht
  exact Lexeme.spells_trimEnd ((stands_of_cut hcut).of_number hkind)

theorem number?_numeral {t : Token} {d : Decimal} (h : Spells t.numeral d) :
    Reading.number? t.numeral = some (d.toBinary64 false) :=
  Reading.number?_spelled false h

end Token

namespace Morph

open ShaderLoom.Token
open ShaderLoom.Reading (Spells)

/-- Whether an argument is one number literal worth exactly one; a literal that does not read as a number gives no
    answer. -/
def unit? : List Token → Option Bool
  | [t] => if t.kind = .number then (Reading.number? t.numeral).map (· == Binary64.one) else some false
  | _ => some false

/-- The pass takes no answer for a no. -/
theorem isUnit_eq (ts : List Token) : isUnit ts = (unit? ts).getD false := by
  unfold isUnit unit?
  split
  · rename_i t
    by_cases hkind : t.kind = .number
    · simp only [hkind, if_true, decide_true, Bool.true_and]
      show (Reading.number? t.numeral == some Binary64.one) = _
      cases Reading.number? t.numeral <;> rfl
    · simp [hkind]
  · simp

theorem unit?_of_tokens {source : String} {ts : List Token} (h : ∀ t ∈ ts, t ∈ tokenize source) :
    ∃ answer, unit? ts = some answer := by
  unfold unit?
  split
  · rename_i t
    by_cases hkind : t.kind = .number
    · obtain ⟨d, hspells⟩ := exists_spells (h t (by simp)) hkind
      rw [if_pos hkind, number?_numeral hspells]
      exact ⟨_, rfl⟩
    · exact ⟨false, if_neg hkind⟩
  · exact ⟨false, rfl⟩

/-- Every number token of a text, without the letters at its end, spells a decimal and reads as the number nearest
    to it; so whether a row of its tokens is a literal worth one is never left without an answer. -/
theorem numbers_read (source : String) :
    (∀ t ∈ tokenize source, t.kind = .number →
      ∃ d, Spells t.numeral d ∧ Reading.number? t.numeral = some (d.toBinary64 false)) ∧
    ∀ ts : List Token, (∀ t ∈ ts, t ∈ tokenize source) → unit? ts = some (isUnit ts) := by
  constructor
  · intro t ht hkind
    obtain ⟨d, hspells⟩ := exists_spells ht hkind
    exact ⟨d, hspells, number?_numeral hspells⟩
  · intro ts hts
    obtain ⟨answer, hanswer⟩ := unit?_of_tokens hts
    rw [isUnit_eq, hanswer, Option.getD_some]

/-- A number whose power has the digits of another script. -/
def scriptPower : Token := ⟨.number, ".5E-\u0662h", 4, 10⟩

/-- Before it stands a number that ends where a power lacks its digits. -/
theorem scriptPower_read :
    tokenize "2.e+.5E-\u0662h" = [⟨.number, "2.", 0, 2⟩, ⟨.name, "e", 2, 3⟩, ⟨.mark, "+", 3, 4⟩, scriptPower] ∧
    (scriptPower ∈ tokenize "2.e+.5E-\u0662h" ∧ scriptPower.kind = .number) ∧
    (∃ d, Spells ".5E-\u0662".toList d ∧ Reading.number? ".5E-\u0662".toList = some (d.toBinary64 false)) ∧
    unit? [scriptPower] = some false := by
  have htokens : tokenize "2.e+.5E-\u0662h" =
      [⟨.number, "2.", 0, 2⟩, ⟨.name, "e", 2, 3⟩, ⟨.mark, "+", 3, 4⟩, scriptPower] := by decide +kernel
  have hmem : scriptPower ∈ tokenize "2.e+.5E-\u0662h" := by simp [htokens]
  have hnumeral : scriptPower.numeral = ".5E-\u0662".toList := by decide +kernel
  have hno : isUnit [scriptPower] = false := by decide +kernel
  obtain ⟨hread, hunit⟩ := numbers_read "2.e+.5E-\u0662h"
  refine ⟨htokens, ⟨hmem, rfl⟩, ?_, ?_⟩
  · rw [← hnumeral]
    exact hread scriptPower hmem rfl
  · rw [← hno]
    exact hunit [scriptPower] (by simpa using hmem)

end Morph

end ShaderLoom
