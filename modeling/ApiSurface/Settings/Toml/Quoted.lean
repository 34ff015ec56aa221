import ApiSurface.Settings.Toml.Gap
import ApiSurface.Text.Digits
import ApiSurface.Text.Reader

/-!
# Strings in TOML

A string stands between double quotes, where a backslash starts an escape, or between single
quotes, where it does not. Three quotes instead of one enclose a string of several lines.
-/

namespace ApiSurface

open Text

namespace Toml

/-- Puts characters in front of the text that was read. -/
def prepend (t : Text) (p : Text × Text) : Text × Text := (t ++ p.1, p.2)

/-! ### Escapes -/

/-- Where among escapes a character stands. -/
inductive Escaping where
  /-- Outside escapes. -/
  | outside
  /-- Behind a backslash. -/
  | started
  /-- In the digits of a code point, of which so many are missing and the others have this
  value. -/
  | code (missing : Nat) (value : Nat)
  deriving DecidableEq

/-- The character that a letter behind a backslash stands for. -/
def escapedChar? (c : Char) : Option Char :=
  if c = 'b' then some '\x08'
  else if c = 't' then some '\t'
  else if c = 'n' then some '\n'
  else if c = 'f' then some '\x0C'
  else if c = 'r' then some '\r'
  else if c = '"' ∨ c = '\\' then some c
  else none

/-- The character of a code point. -/
def charOfCode? (n : Nat) : Option Char := if n.isValidChar then some (.ofNat n) else none

/-- The place behind a character, with the character that is complete then. -/
def Escaping.next? : Escaping → Char → Option (Escaping × Option Char)
  | outside, c =>
    if c = '\\' then some (started, none)
    else if isPlain c then some (outside, some c)
    else none
  | started, c =>
    if c = 'u' then some (code 4 0, none)
    else if c = 'U' then some (code 8 0, none)
    else (escapedChar? c).map fun d => (outside, some d)
  | code missing value, c =>
    (digit? 16 c).bind fun d =>
      if missing ≤ 1 then (charOfCode? (16 * value + d)).map fun d => (outside, some d)
      else some (code (missing - 1) (16 * value + d), none)

/-! ### Strings on one line -/

/-- The string between double quotes, read from behind the first one. -/
def readBasic (p : Escaping) : Reader Text
  | [] => none
  | c :: r =>
    if p = .outside ∧ c = '"' then some ([], r)
    else
      match p.next? c with
      | none => none
      | some (next, d) => (readBasic next r).map (prepend d.toList)

/-- The string between single quotes, read from behind the first one. -/
def readLiteral : Reader Text
  | [] => none
  | c :: r =>
    if c = '\'' then some ([], r)
    else if isPlain c then (readLiteral r).map (prepend [c])
    else none

/-! ### Strings of several lines -/

/-- Where three quotes end a string: the rest behind them, with up to two quotes in front of them
that are part of the string. -/
def closing? (quote : Char) (t : Text) : Option (Text × Text) :=
  (after? [quote, quote, quote] t).map fun r =>
    match after? [quote, quote] r, after? [quote] r with
    | some rest, _ => ([quote, quote], rest)
    | none, some rest => ([quote], rest)
    | none, none => ([], r)

/-- What a character of a line end adds to a string: every line end counts as a line feed. -/
def newlineText (c : Char) : Text := if c = '\r' then [] else [c]

/-- The string between three double quotes. Behind a backslash at the end of a line all blanks and
line ends are skipped. -/
def readMultiBasic (skipping : Bool) (p : Escaping) : Reader Text
  | [] => none
  | c :: r =>
    if p = .outside ∧ skipping ∧ (isSpace c ∨ startsWithNewline (c :: r)) then
      readMultiBasic true .outside r
    else if p = .started ∧ startsWithNewline (skipSpace (c :: r)) then
      readMultiBasic true .outside r
    else if p = .outside ∧ startsWithNewline (c :: r) then
      (readMultiBasic false .outside r).map (prepend (newlineText c))
    else
      match if p = .outside then closing? '"' (c :: r) else none with
      | some result => some result
      | none =>
        match p.next? c with
        | none => none
        | some (next, d) => (readMultiBasic false next r).map (prepend d.toList)

/-- The string between three single quotes. -/
def readMultiLiteral : Reader Text
  | [] => none
  | c :: r =>
    match closing? '\'' (c :: r) with
    | some result => some result
    | none =>
      if isPlain c then (readMultiLiteral r).map (prepend [c])
      else if startsWithNewline (c :: r) then (readMultiLiteral r).map (prepend (newlineText c))
      else none

/-- The text without a line end at its start. -/
def dropNewline (t : Text) : Text := (afterNewline? t).getD t

/-- A string of any form. -/
def readString : Reader Text
  | '"' :: '"' :: '"' :: r => readMultiBasic false .outside (dropNewline r)
  | '"' :: r => readBasic .outside r
  | '\'' :: '\'' :: '\'' :: r => readMultiLiteral (dropNewline r)
  | '\'' :: r => readLiteral r
  | _ => none

end Toml

end ApiSurface
