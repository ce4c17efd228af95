/-
  ShaderLoom.Proofs.Json.Read — values read back from their lines.

  A value `Reads` when its line, before whatever ends a number, reads as the value with its keys
  in order and leaves what follows, given as many steps as the line has characters. Numbers, words
  and text read; a list reads when its items do (`reads_list`) and a mapping when its values do
  (`reads_map`), each item and each member taking one step of the allowance and at least one
  character. So every value whose mappings have each key once and whose whole numbers are not too
  long reads (`reads_value`), and a line reads back as its value (`value_line`).
-/

import ShaderLoom.Proofs.Json.Line
import ShaderLoom.Proofs.Value.Printable

namespace ShaderLoom.Json

variable {v : Value} {vs items : List Value} {entries : Entries Value} {steps : Nat} {rest : List Char} {s : String}

/-! ## Values that read -/

def Reads (v : Value) : Prop :=
  ∀ steps rest, (line v).toList.length ≤ steps → Delimited rest →
    valueWithin steps ((line v).toList ++ rest) = .ok (v.sortKeys, rest)

theorem skipSpace_cons {c : Char} {cs : List Char} (h : isSpace c = false) : skipSpace (c :: cs) = c :: cs :=
  List.dropWhile_cons_of_neg (Bool.not_eq_true _ ▸ h)

theorem skipSpace_line (v : Value) (rest : List Char) :
    skipSpace ((line v).toList ++ rest) = (line v).toList ++ rest := by
  obtain ⟨c, cs, hline, hc⟩ := head_line v
  rw [hline]
  exact skipSpace_cons (Bool.or_eq_false_iff.mp hc).1

theorem valueWithin_scalar (hs : StartsScalar s) (steps : Nat) (rest : List Char) :
    valueWithin (steps + 1) (s.toList ++ rest) = scalar (s.toList ++ rest) := by
  obtain ⟨c, cs, hs, _, hc⟩ := hs
  have hopens : (c ≠ '"' ∧ c ≠ '[') ∧ c ≠ '\x7b' := by simpa [opens] using hc
  rw [hs, List.cons_append, valueWithin]
  · exact fun _ h => hopens.1.1 (List.cons.inj h).1
  · exact fun _ h => hopens.1.2 (List.cons.inj h).1
  · exact fun _ h => hopens.2 (List.cons.inj h).1

theorem reads_of_scalar (hv : v.sortKeys = v) (hs : StartsScalar (line v))
    (hscalar : ∀ rest, Delimited rest → scalar ((line v).toList ++ rest) = .ok (v, rest)) : Reads v := by
  intro steps rest hsteps hrest
  cases steps with
  | zero =>
    obtain ⟨c, cs, hline, _⟩ := hs
    rw [hline] at hsteps
    cases hsteps
  | succ steps => rw [valueWithin_scalar hs, hscalar rest hrest, hv]

theorem reads_null : Reads .null :=
  reads_of_scalar rfl startsScalar_null fun _ _ => rfl

theorem reads_bool (b : Bool) : Reads (.bool b) := by
  cases b with
  | true => exact reads_of_scalar rfl (startsScalar_bool true) fun _ _ => rfl
  | false => exact reads_of_scalar rfl (startsScalar_bool false) fun _ _ => rfl

theorem reads_int {n : Int} (hn : (Decimal.digitText n.natAbs).length ≤ mostDigits) : Reads (.int n) :=
  reads_of_scalar rfl (startsScalar_intText n) fun _ => scalar_intText hn

theorem reads_float (x : Binary64) : Reads (.float x) :=
  reads_of_scalar rfl (startsScalar_numberLine x) fun _ => scalar_numberLine x

theorem exists_textLine (s : String) :
    ∃ cs, (textLine s).toList = '"' :: cs ∧ ∀ rest, text? (cs ++ rest) = some (s.toList, rest) := by
  refine ⟨s.toList.flatMap escapedChar ++ ['"'], String.toList_ofList, fun rest => ?_⟩
  rw [List.append_assoc]
  exact text?_escaped s.toList rest

theorem reads_str (s : String) : Reads (.str s) := by
  intro steps rest hsteps _
  obtain ⟨cs, hline, hread⟩ := exists_textLine s
  rw [show line (.str s) = textLine s from rfl, hline] at hsteps ⊢
  cases steps with
  | zero => cases hsteps
  | succ steps =>
    rw [List.cons_append, valueWithin, hread rest]
    exact congrArg (fun t => Except.ok (Value.str t, rest)) String.ofList_toList

/-! ## Rows of lines -/

/-- Lines one after another, a comma and a blank between them. -/
def row (parts : List String) : List Char := (", ".intercalate parts).toList

theorem row_singleton (a : String) : row [a] = a.toList := congrArg String.toList String.intercalate_singleton

theorem row_cons_cons (a b : String) (parts : List String) :
    row (a :: b :: parts) = a.toList ++ ',' :: ' ' :: row (b :: parts) := by
  have hcomma : ", ".toList = [',', ' '] := String.toList_ofList
  rw [row, String.intercalate_cons_cons, String.toList_append, String.toList_append, hcomma, List.append_assoc]
  rfl

theorem exists_row (a : String) (parts : List String) : ∃ tail, row (a :: parts) = a.toList ++ tail := by
  cases parts with
  | nil => exact ⟨[], by rw [row_singleton, List.append_nil]⟩
  | cons b parts => exact ⟨_, row_cons_cons a b parts⟩

/-! ## Lists -/

theorem skipSpace_items (v : Value) (vs : List Value) (rest : List Char) :
    skipSpace (row ((v :: vs).map line) ++ rest) = row ((v :: vs).map line) ++ rest := by
  obtain ⟨tail, hrow⟩ := exists_row (line v) (vs.map line)
  rw [List.map_cons, hrow, List.append_assoc]
  exact skipSpace_line v _

theorem itemsWithin_row (hreads : ∀ w ∈ v :: vs, Reads w) (hsteps : (row ((v :: vs).map line)).length < steps) :
    itemsWithin steps (row ((v :: vs).map line) ++ ']' :: rest) = .ok ((v :: vs).map Value.sortKeys, rest) := by
  induction vs generalizing v steps with
  | nil =>
    obtain ⟨steps, rfl⟩ : ∃ k, steps = k + 1 := ⟨steps - 1, by omega⟩
    have hv : Reads v := hreads v List.mem_cons_self
    rw [List.map_singleton, row_singleton] at hsteps ⊢
    rw [itemsWithin, hv steps (']' :: rest) (by omega) rfl]
    rfl
  | cons w vs ih =>
    obtain ⟨steps, rfl⟩ : ∃ k, steps = k + 1 := ⟨steps - 1, by omega⟩
    have hv : Reads v := hreads v List.mem_cons_self
    have hrow : row ((v :: w :: vs).map line) = (line v).toList ++ ',' :: ' ' :: row ((w :: vs).map line) :=
      row_cons_cons _ _ _
    rw [hrow, List.length_append, List.length_cons, List.length_cons] at hsteps
    have hnext : itemsWithin steps (row ((w :: vs).map line) ++ ']' :: rest) = .ok ((w :: vs).map Value.sortKeys, rest) :=
      ih (fun u hu => hreads u (List.mem_cons_of_mem _ hu)) (by omega)
    have hskip : skipSpace (' ' :: (row ((w :: vs).map line) ++ ']' :: rest)) = row ((w :: vs).map line) ++ ']' :: rest :=
      skipSpace_items w vs _
    have hcomma : skipSpace (',' :: ' ' :: (row ((w :: vs).map line) ++ ']' :: rest)) =
        ',' :: ' ' :: (row ((w :: vs).map line) ++ ']' :: rest) := skipSpace_cons (by decide)
    have hfirst := hv steps (',' :: ' ' :: (row ((w :: vs).map line) ++ ']' :: rest)) (by omega) rfl
    rw [hrow, List.append_assoc, List.cons_append, List.cons_append, itemsWithin, hfirst]
    simp only [hcomma, hskip, hnext]
    rfl

theorem valueWithin_items {cs : List Char} (hspace : skipSpace cs = cs) (hclose : cs.head? ≠ some ']') (steps : Nat) :
    valueWithin (steps + 1) ('[' :: cs) = (itemsWithin steps cs).map fun (items, r) => (.list items, r) := by
  rw [valueWithin, hspace]
  split
  · exact absurd rfl hclose
  · rfl

theorem reads_list (hreads : ∀ v ∈ items, Reads v) : Reads (.list items) := by
  intro steps rest hsteps _
  have hline : (line (.list items)).toList = '[' :: (row (items.map line) ++ [']']) := by
    rw [line_list, String.toList_append, String.toList_append, List.append_assoc]
    rfl
  rw [hline, List.length_cons, List.length_append, List.length_singleton] at hsteps
  obtain ⟨steps, rfl⟩ : ∃ k, steps = k + 1 := ⟨steps - 1, by omega⟩
  rw [hline, List.cons_append, List.append_assoc, Value.sortKeys, Value.sortItems_eq]
  cases items with
  | nil => rfl
  | cons v vs =>
    have hclose : (row ((v :: vs).map line) ++ ']' :: rest).head? ≠ some ']' := by
      obtain ⟨tail, hrow⟩ := exists_row (line v) (vs.map line)
      obtain ⟨c, cs, hv, hc⟩ := head_line v
      rw [List.map_cons, hrow, hv]
      rintro h
      cases Option.some.inj h
      cases hc
    rw [List.singleton_append, valueWithin_items (skipSpace_items v vs _) hclose, itemsWithin_row hreads (by omega)]
    rfl

/-! ## Mappings -/

/-- The text of an entry. -/
def entryText (p : String × Value) : String := memberText (p.1, line p.2)

theorem exists_entryText (p : String × Value) : ∃ cs, (entryText p).toList = '"' :: (cs ++ ':' :: ' ' :: (line p.2).toList) ∧
    ∀ rest, text? (cs ++ rest) = some (p.1.toList, rest) := by
  obtain ⟨cs, hkey, hread⟩ := exists_textLine p.1
  have hcolon : ": ".toList = [':', ' '] := String.toList_ofList
  refine ⟨cs, ?_, hread⟩
  rw [entryText, memberText, String.toList_append, String.toList_append, hkey, hcolon, List.append_assoc]
  rfl

theorem entry_append {p : String × Value} {cs : List Char}
    (htext : (entryText p).toList = '"' :: (cs ++ ':' :: ' ' :: (line p.2).toList)) (rest : List Char) :
    (entryText p).toList ++ rest = '"' :: (cs ++ ':' :: ' ' :: ((line p.2).toList ++ rest)) := by
  rw [htext, List.cons_append, List.append_assoc, List.cons_append, List.cons_append]

theorem skipSpace_colon (cs : List Char) : skipSpace (':' :: cs) = ':' :: cs := skipSpace_cons (by decide)

/-- The value of an entry, behind the blank before it. -/
theorem value_of_entry {p : String × Value} {cs : List Char} (hp : Reads p.2)
    (hsteps : ('"' :: (cs ++ ':' :: ' ' :: (line p.2).toList)).length ≤ steps) (hrest : Delimited rest) :
    valueWithin steps (skipSpace (' ' :: ((line p.2).toList ++ rest))) = .ok (p.2.sortKeys, rest) := by
  have hblank : skipSpace (' ' :: ((line p.2).toList ++ rest)) = (line p.2).toList ++ rest := skipSpace_line p.2 rest
  have hlength : (line p.2).toList.length ≤ steps := by
    simp only [List.length_cons, List.length_append] at hsteps
    omega
  rw [hblank, hp steps rest hlength hrest]

/-- An entry behind which the mapping is closed. -/
theorem membersWithin_last {p : String × Value} (hp : Reads p.2) (hsteps : (entryText p).toList.length ≤ steps) :
    membersWithin (steps + 1) ((entryText p).toList ++ '}' :: rest) = .ok ([(p.1, p.2.sortKeys)], rest) := by
  obtain ⟨cs, htext, hread⟩ := exists_entryText p
  have hvalue := value_of_entry hp (htext ▸ hsteps) (show Delimited ('}' :: rest) from rfl)
  have hclose : skipSpace ('}' :: rest) = '}' :: rest := skipSpace_cons (by decide)
  rw [entry_append htext, membersWithin, hread]
  simp only [skipSpace_colon, hvalue, hclose, String.ofList_toList]

/-- An entry behind which the mapping goes on. -/
theorem membersWithin_next {p : String × Value} (hp : Reads p.2) (hsteps : (entryText p).toList.length ≤ steps) :
    membersWithin (steps + 1) ((entryText p).toList ++ ',' :: rest) =
      (membersWithin steps (skipSpace rest)).map fun (vs, r) => ((p.1, p.2.sortKeys) :: vs, r) := by
  obtain ⟨cs, htext, hread⟩ := exists_entryText p
  have hvalue := value_of_entry hp (htext ▸ hsteps) (show Delimited (',' :: rest) from rfl)
  have hcomma : skipSpace (',' :: rest) = ',' :: rest := skipSpace_cons (by decide)
  rw [entry_append htext, membersWithin, hread]
  simp only [skipSpace_colon, hvalue, hcomma, String.ofList_toList]

theorem membersWithin_row {p : String × Value} (hreads : ∀ q ∈ p :: entries, Reads q.2)
    (hsteps : (row ((p :: entries).map entryText)).length < steps) :
    membersWithin steps (row ((p :: entries).map entryText) ++ '}' :: rest) =
      .ok (Entries.mapValues Value.sortKeys (p :: entries), rest) := by
  induction entries generalizing p steps with
  | nil =>
    obtain ⟨steps, rfl⟩ : ∃ k, steps = k + 1 := ⟨steps - 1, by omega⟩
    have hp : Reads p.2 := hreads p List.mem_cons_self
    rw [List.map_singleton, row_singleton] at hsteps ⊢
    rw [membersWithin_last hp (by omega)]
    rfl
  | cons q entries ih =>
    obtain ⟨steps, rfl⟩ : ∃ k, steps = k + 1 := ⟨steps - 1, by omega⟩
    have hp : Reads p.2 := hreads p List.mem_cons_self
    have hrow : row ((p :: q :: entries).map entryText) =
        (entryText p).toList ++ ',' :: ' ' :: row ((q :: entries).map entryText) := row_cons_cons _ _ _
    rw [hrow, List.length_append, List.length_cons, List.length_cons] at hsteps
    have hnext : membersWithin steps (row ((q :: entries).map entryText) ++ '}' :: rest) =
        .ok (Entries.mapValues Value.sortKeys (q :: entries), rest) :=
      ih (fun u hu => hreads u (List.mem_cons_of_mem _ hu)) (by omega)
    have hskip : skipSpace (' ' :: (row ((q :: entries).map entryText) ++ '}' :: rest)) =
        row ((q :: entries).map entryText) ++ '}' :: rest := by
      obtain ⟨tail, hrow⟩ := exists_row (entryText q) (entries.map entryText)
      obtain ⟨cs, htext, _⟩ := exists_entryText q
      rw [List.map_cons, hrow, htext]
      rfl
    rw [hrow, List.append_assoc, List.cons_append, List.cons_append, membersWithin_next hp (by omega), hskip, hnext]
    rfl

theorem valueWithin_members {cs : List Char} (hspace : skipSpace cs = cs) (hclose : cs.head? ≠ some '}') (steps : Nat) :
    valueWithin (steps + 1) ('{' :: cs) =
      (membersWithin steps cs).map fun (members, r) => (.map (Entries.ofPairs members), r) := by
  rw [valueWithin, hspace]
  split
  · exact absurd rfl hclose
  · rfl

theorem line_map_eq (entries : Entries Value) : (line (.map entries)).toList =
    '\x7b' :: (row ((Entries.sorted entries).map entryText) ++ ['\x7d']) := by
  have hmembers : (Entries.sorted (Entries.mapValues line entries)).map memberText = (Entries.sorted entries).map entryText := by
    rw [Entries.sorted_mapValues, Entries.mapValues, List.map_map]
    rfl
  rw [line_map, hmembers, String.toList_append, String.toList_append, List.append_assoc]
  rfl

theorem reads_map (hkeys : (Entries.keys entries).Nodup) (hreads : ∀ p ∈ entries, Reads p.2) : Reads (.map entries) := by
  intro steps rest hsteps _
  have hsorted : Entries.ofPairs (Entries.mapValues Value.sortKeys (Entries.sorted entries)) =
      Entries.sorted (Entries.mapValues Value.sortKeys entries) := by
    rw [Entries.sorted_mapValues]
    refine Entries.ofPairs_of_nodup ?_
    rw [Entries.keys_mapValues]
    exact Entries.nodup_keys_sorted hkeys
  have hmembers : ∀ p ∈ Entries.sorted entries, Reads p.2 :=
    fun p hp => hreads p ((Entries.sorted_perm entries).mem_iff.mp hp)
  rw [line_map_eq, List.length_cons, List.length_append, List.length_singleton] at hsteps
  obtain ⟨steps, rfl⟩ : ∃ k, steps = k + 1 := ⟨steps - 1, by omega⟩
  rw [line_map_eq, List.cons_append, List.append_assoc, Value.sortKeys, Value.sortEntries_eq, ← hsorted]
  cases hentries : Entries.sorted entries with
  | nil => rfl
  | cons p others =>
    rw [hentries] at hsteps hmembers
    obtain ⟨tail, hrow⟩ := exists_row (entryText p) (others.map entryText)
    obtain ⟨cs, htext, _⟩ := exists_entryText p
    have hstart : row ((p :: others).map entryText) ++ '}' :: rest =
        '"' :: (cs ++ ':' :: ' ' :: (line p.2).toList ++ tail ++ '}' :: rest) := by
      rw [List.map_cons, hrow, htext]
      rfl
    have hspace : skipSpace (row ((p :: others).map entryText) ++ '}' :: rest) =
        row ((p :: others).map entryText) ++ '}' :: rest := by
      rw [hstart]
      rfl
    have hclose : (row ((p :: others).map entryText) ++ '}' :: rest).head? ≠ some '}' := by
      rw [hstart]
      simp
    rw [List.singleton_append, valueWithin_members hspace hclose, membersWithin_row hmembers (by omega)]
    rfl

/-! ## Every value -/

theorem reads_value (hv : v.isKeyed = true) (hr : v.isPrintable = true) : Reads v := by
  induction v using Value.induction with
  | null => exact reads_null
  | bool b => exact reads_bool b
  | int n => exact reads_int (of_decide_eq_true hr)
  | float x => exact reads_float x
  | str s => exact reads_str s
  | list items ih =>
    have hkeyed := Value.itemsKeyed_iff.mp hv
    have hprintable := Value.itemsPrintable_iff.mp hr
    exact reads_list fun v hv => ih v hv (hkeyed v hv) (hprintable v hv)
  | map entries ih =>
    obtain ⟨hkeys, hkeyed⟩ := Value.isKeyed_map.mp hv
    have hprintable := Value.entriesPrintable_iff.mp hr
    exact reads_map hkeys fun p hp => ih p hp (hkeyed p hp) (hprintable p hp)

theorem value_line (hv : v.isKeyed = true) (hr : v.isPrintable = true) : value (line v).toList = .ok v.sortKeys := by
  have hskip : skipSpace (line v).toList = (line v).toList := by
    have h := skipSpace_line v []
    rwa [List.append_nil] at h
  have hread := reads_value hv hr (2 * (line v).toList.length + 2) [] (by omega) rfl
  rw [List.append_nil] at hread
  rw [value, hskip, hread]
  rfl

end ShaderLoom.Json
