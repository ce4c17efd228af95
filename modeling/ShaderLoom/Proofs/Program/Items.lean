/-
  ShaderLoom.Proofs.Program.Items — a source as a row of declarations and definitions.

  At file scope a source is cut into items (`items`): each ends at a semicolon in no brace or at the
  brace that closes the last open one. A row is one item (`IsItem`) when it is over there and not
  before; an item comes off the front of any row (`itemsFrom_append`), and so do items one after
  another (`itemsFrom_flatten_append`).
-/

import ShaderLoom.Proofs.Lexeme.Parted
import ShaderLoom.Proofs.Morph.Inserted

namespace ShaderLoom.Program

open ShaderLoom.Lexeme ShaderLoom.Morph

/-- Whether an item ends with a lexeme that has so many open braces before it. -/
def endsItem (depth : Nat) (x : Lexeme) : Bool := (depth == 0 && x.2 == [';']) || (depth == 1 && closes x)

/-- The open braces behind a lexeme. -/
def openBehind (depth : Nat) (x : Lexeme) : Nat :=
  if opens x then depth + 1 else if closes x then depth - 1 else depth

/-- The items of a row that starts with so many open braces; what is left at its end stands last. -/
def itemsFrom (depth : Nat) : List Lexeme → List (List Lexeme)
  | [] => []
  | x :: rest =>
    if endsItem depth x then [x] :: itemsFrom 0 rest
    else match itemsFrom (openBehind depth x) rest with
      | first :: others => (x :: first) :: others
      | [] => [[x]]

/-- The significant lexemes of a text, cut at file scope. -/
def items (cs : List Char) : List (List Lexeme) := itemsFrom 0 (significant cs)

/-- Whether a row that starts with so many open braces is over at its last lexeme and not before. -/
def isItemFrom (depth : Nat) : List Lexeme → Bool
  | [] => false
  | x :: rest => if endsItem depth x then rest.isEmpty else isItemFrom (openBehind depth x) rest

abbrev IsItem (item : List Lexeme) : Prop := isItemFrom 0 item = true

theorem itemsFrom_append {depth : Nat} {item : List Lexeme} (h : isItemFrom depth item = true) (rest : List Lexeme) :
    itemsFrom depth (item ++ rest) = item :: itemsFrom 0 rest := by
  induction item generalizing depth with
  | nil => cases h
  | cons x item ih =>
    rw [isItemFrom] at h
    rw [List.cons_append, itemsFrom]
    by_cases hx : endsItem depth x = true
    · rw [if_pos hx] at h
      rw [if_pos hx, List.isEmpty_iff.mp h]
      rfl
    · rw [if_neg hx] at h
      rw [if_neg hx, ih h]

theorem flatten_itemsFrom (depth : Nat) (xs : List Lexeme) : (itemsFrom depth xs).flatten = xs := by
  induction xs generalizing depth with
  | nil => rfl
  | cons x xs ih =>
    rw [itemsFrom]
    split
    · rw [List.flatten_cons, ih]
      rfl
    · have hrest := ih (openBehind depth x)
      split
      · rename_i first others hitems
        rw [hitems, List.flatten_cons] at hrest
        rw [List.flatten_cons, List.cons_append, hrest]
      · rename_i hitems
        rw [hitems] at hrest
        rw [← hrest]
        rfl

/-- Whole items come off the front one by one. -/
theorem itemsFrom_flatten_append {l : List (List Lexeme)} (h : ∀ item ∈ l, IsItem item) (rest : List Lexeme) :
    itemsFrom 0 (l.flatten ++ rest) = l ++ itemsFrom 0 rest := by
  induction l with
  | nil => rfl
  | cons item l ih =>
    obtain ⟨hitem, hl⟩ := List.forall_mem_cons.mp h
    rw [List.flatten_cons, List.append_assoc, itemsFrom_append hitem, ih hl]
    rfl

/-! ## Statements and definitions -/

/-- A lexeme that neither ends a statement nor opens or closes a block. -/
def isInner (x : Lexeme) : Bool := x.2 != [';'] && !opens x && !closes x

theorem isItem_statement {xs : List Lexeme} (h : ∀ x ∈ xs, isInner x = true) : IsItem (xs ++ [mark ';']) := by
  induction xs with
  | nil => rfl
  | cons x xs ih =>
    obtain ⟨hx, hxs⟩ := List.forall_mem_cons.mp h
    simp only [isInner, Bool.and_eq_true, bne_iff_ne, ne_eq, Bool.not_eq_true'] at hx
    obtain ⟨⟨hsemicolon, hopens⟩, hcloses⟩ := hx
    have hends : endsItem 0 x = false := by simp [endsItem, hsemicolon]
    rw [IsItem, List.cons_append, isItemFrom, hends, openBehind, hopens, hcloses]
    exact ih hxs

/-- A lexeme that neither opens nor closes a block. -/
def isFlat (x : Lexeme) : Bool := !opens x && !closes x

theorem isItemFrom_body {body : List Lexeme} (h : ∀ x ∈ body, isFlat x = true) :
    isItemFrom 1 (body ++ [mark '\x7d']) = true := by
  induction body with
  | nil => rfl
  | cons x body ih =>
    obtain ⟨hx, hbody⟩ := List.forall_mem_cons.mp h
    simp only [isFlat, Bool.and_eq_true, Bool.not_eq_true'] at hx
    have hends : endsItem 1 x = false := by simp [endsItem, hx.2]
    rw [List.cons_append, isItemFrom, hends, openBehind, hx.1, hx.2]
    exact ih hbody

/-- A heading without semicolons and a body without blocks are one item. -/
theorem isItem_block {heading body : List Lexeme} (hheading : ∀ x ∈ heading, isInner x = true)
    (hbody : ∀ x ∈ body, isFlat x = true) : IsItem (heading ++ mark '\x7b' :: (body ++ [mark '\x7d'])) := by
  induction heading with
  | nil => exact isItemFrom_body hbody
  | cons x heading ih =>
    obtain ⟨hx, hheading⟩ := List.forall_mem_cons.mp hheading
    simp only [isInner, Bool.and_eq_true, bne_iff_ne, ne_eq, Bool.not_eq_true'] at hx
    obtain ⟨⟨hsemicolon, hopens⟩, hcloses⟩ := hx
    have hends : endsItem 0 x = false := by simp [endsItem, hsemicolon]
    rw [IsItem, List.cons_append, isItemFrom, hends, openBehind, hopens, hcloses]
    exact ih hheading

/-- The name of a function that an item defines: `T name( … \x7d`. -/
def functionName? : List Lexeme → Option String
  | (.name, _) :: (.name, f) :: (.mark, ['(']) :: rest =>
    if rest.getLast? = some (mark '\x7d') then some (String.ofList f) else none
  | _ => none

end ShaderLoom.Program
