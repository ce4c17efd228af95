/-
  ShaderLoom.Token — shader source cut into tokens.

  The first lexeme of a text (`Lexeme.first`) is, in this order: a comment, a run of blanks, a
  number, a name, or any one character. A line comment ends before the next line end, a block
  comment with the first `*/`; without one its slash is a character of its own. A number is
  digits with an optional point, exponent and one of the suffixes `f`, `h`.

  `tokenize` cuts a whole text: every token starts where the one before it ended. The scan runs
  over the characters one by one; `covered` counts those that belong to the token already cut.
-/

import ShaderLoom.Text.Blank
import ShaderLoom.Text.Digit
import ShaderLoom.Text.Word

namespace ShaderLoom

inductive TokenKind where
  | comment
  | space
  | number
  | name
  | mark
  deriving DecidableEq

structure Token where
  kind : TokenKind
  text : String
  start : Nat
  stop : Nat
  deriving DecidableEq

namespace Lexeme

open ShaderLoom.Text

/-- A text up to and with the first `*/`. -/
def blockEnd? : List Char → Option (List Char)
  | '*' :: '/' :: _ => some ['*', '/']
  | c :: rest => (blockEnd? rest).map (c :: ·)
  | [] => none

def comment? : List Char → Option (List Char)
  | '/' :: '/' :: rest => some ('/' :: '/' :: rest.takeWhile (· != '\n'))
  | '/' :: '*' :: rest => (blockEnd? rest).map fun body => '/' :: '*' :: body
  | _ => none

/-- The digits of a number and its point. -/
def mantissa? (cs : List Char) : Option (List Char) :=
  let whole := cs.takeWhile isDigit
  match cs.drop whole.length with
  | '.' :: rest =>
    let part := rest.takeWhile isDigit
    if whole = [] ∧ part = [] then none else some (whole ++ '.' :: part)
  | _ => if whole = [] then none else some whole

/-- The sign at the start of a text, if there is one. -/
def sign : List Char → List Char
  | '+' :: _ => ['+']
  | '-' :: _ => ['-']
  | _ => []

/-- The power of ten at the start of a text, if there is a whole one. -/
def exponent : List Char → List Char
  | [] => []
  | c :: rest =>
    let digits := (rest.drop (sign rest).length).takeWhile isDigit
    if (c = 'e' ∨ c = 'E') ∧ digits ≠ [] then c :: (sign rest ++ digits) else []

def isSuffix (c : Char) : Bool := c == 'f' || c == 'F' || c == 'h' || c == 'H'

def suffix (cs : List Char) : List Char := (cs.take 1).filter isSuffix

def number? (cs : List Char) : Option (List Char) :=
  (mantissa? cs).map fun m =>
    let e := exponent (cs.drop m.length)
    m ++ e ++ suffix (cs.drop (m.length + e.length))

/-- The first lexeme of a text that starts with `c`. -/
def first (c : Char) (rest : List Char) : TokenKind × List Char :=
  match comment? (c :: rest) with
  | some text => (.comment, text)
  | none =>
    if isBlank c then (.space, c :: rest.takeWhile isBlank)
    else match number? (c :: rest) with
      | some text => (.number, text)
      | none =>
        if isNameStart c then (.name, c :: rest.takeWhile isWord)
        else (.mark, [c])

end Lexeme

namespace Token

/-- The tokens of a text that starts at an offset, its first `covered` characters aside. -/
def scan (covered offset : Nat) : List Char → List Token
  | [] => []
  | c :: rest =>
    match covered with
    | k + 1 => scan k (offset + 1) rest
    | 0 =>
      let (kind, text) := Lexeme.first c rest
      ⟨kind, String.ofList text, offset, offset + text.length⟩ ::
        scan (text.length - 1) (offset + 1) rest

def tokenize (source : String) : List Token := scan 0 0 source.toList

/-- Tokens other than comments and blanks. -/
def isSignificant (t : Token) : Bool := t.kind != .comment && t.kind != .space

def significant (tokens : List Token) : List Token := tokens.filter isSignificant

end Token

end ShaderLoom
