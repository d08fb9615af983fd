import Polyscan.Pattern.Reader.Basic

/-! Escapes: what a backslash and the characters after it stand for, inside and outside of sets. -/
namespace Polyscan.Pattern

open Text

def isHex (c : Char) : Bool := (hexValue? c).isSome

def isOctal (c : Char) : Bool := '0' ≤ c && c ≤ '7'

def isDigitChar (c : Char) : Bool := isAsciiDigit c.toNat

def hexNumber (ds : List Char) : Nat := ds.foldl (fun n c => n * 16 + (hexValue? c).getD 0) 0

def octalNumber (ds : List Char) : Nat := ds.foldl (fun n c => n * 8 + (c.toNat - 48)) 0

def decimalNumber (ds : List Char) : Nat := ds.foldl (fun n c => n * 10 + (c.toNat - 48)) 0

/-- The character that a letter after the backslash stands for. -/
def controlEscape? : Char → Option Nat
  | 'a' => some 7
  | 'b' => some 8
  | 'f' => some 12
  | 'n' => some 10
  | 'r' => some 13
  | 't' => some 9
  | 'v' => some 11
  | '\\' => some 92
  | _ => none

/-- The kind of characters that a letter after the backslash stands for. -/
def kindEscape? : Char → Option Member
  | 'd' => some (.kind false .digit)
  | 'D' => some (.kind true .digit)
  | 's' => some (.kind false .space)
  | 'S' => some (.kind true .space)
  | 'w' => some (.kind false .word)
  | 'W' => some (.kind true .word)
  | _ => none

def anchorEscape? : Char → Option Anchor
  | 'A' => some .textStart
  | 'Z' => some .textEnd
  | 'b' => some .wordEdge
  | 'B' => some .notWordEdge
  | _ => none

def badEscape {α : Type} (escape : List Char) : Reader α :=
  fail ("bad escape " ++ String.ofList escape) escape.length

/-- A character given by exactly `n` hexadecimal digits. -/
def hexEscape (escape : List Char) (n : Nat) : Reader Nat := do
  let ds ← takeWhile isHex n
  let escape := escape ++ ds
  if ds.length = n then
    let c := hexNumber ds
    if 0x10ffff < c then badEscape escape else pure c
  else fail ("incomplete escape " ++ String.ofList escape) escape.length

/-- A character given by name. No names are known. -/
def nameEscape : Reader Nat := do
  if ← takeIf '\x7b' then
    let name ← takeName '\x7d' "character name"
    fail ("undefined character name " ++ quoted name) (name.length + 4)
  else fail "missing \x7b" 0

/-- The escapes that mean the same inside and outside of sets: those that give a character by number or
name, and those that take a character as it is. -/
def plainEscape (c : Char) : Reader Nat := do
  match c with
  | 'x' => hexEscape ['\\', c] 2
  | 'u' => hexEscape ['\\', c] 4
  | 'U' => hexEscape ['\\', c] 8
  | 'N' => nameEscape
  | _ => if isAsciiLetter c.toNat || isDigitChar c then badEscape ['\\', c] else pure c.toNat

/-- An octal number outside of a byte. -/
def octalTooLarge {α : Type} (escape : List Char) : Reader α :=
  fail ("octal escape value " ++ String.ofList escape ++ " outside of range 0-0o377") escape.length

/-- An escape inside a set. -/
def setEscape (c : Char) : Reader Member := do
  match controlEscape? c, kindEscape? c with
  | some n, _ => pure (.one n)
  | none, some m => pure m
  | none, none =>
    if isOctal c then
      let ds ← takeWhile isOctal 2
      let n := octalNumber (c :: ds)
      if 0o377 < n then octalTooLarge ('\\' :: c :: ds) else pure (.one n)
    else do pure (.one (← plainEscape c))

/-- The width of a closed group. -/
def closedWidth? (s : ReadState) (i : Nat) : Option Width :=
  match i with
  | 0 => none
  | j + 1 => (s.widths[j]?).getD none

/-- Refuses a reference from inside a look behind to a group that is open or began in it. -/
def checkBehind (i : Nat) : Reader Unit := do
  let s ← get
  match s.behind with
  | none => pure ()
  | some groups =>
    if (closedWidth? s i).isNone then fail "cannot refer to an open group" 0
    else if groups ≤ i then
      fail "cannot refer to group defined in the same lookbehind subpattern" 0
    else pure ()

/-- A reference to a group by number; `escape` is its text. -/
def groupEscape (escape : List Char) : Reader Tree := do
  let s ← get
  let i := decimalNumber (escape.drop 1)
  if i ≤ s.widths.length then
    if (closedWidth? s i).isNone then fail "cannot refer to an open group" escape.length
    else do
      checkBehind i
      pure (.backref i)
  else fail ("invalid group reference " ++ toString i) (escape.length - 1)

/-- An escape outside of sets. Three octal digits give a character; other digits refer to a group. -/
def escape (c : Char) : Reader Tree := do
  match anchorEscape? c, kindEscape? c, controlEscape? c with
  | some a, _, _ => pure (.anchor a)
  | none, some m, _ => pure (.set false [m])
  | none, none, some n => pure (.char false n)
  | none, none, none =>
    if c = '0' then
      let ds ← takeWhile isOctal 2
      pure (.char false (octalNumber (c :: ds)))
    else if isDigitChar c then
      let second ← takeWhile isDigitChar 1
      if isOctal c && second.all isOctal && !second.isEmpty then
        let third ← takeWhile isOctal 1
        if third.isEmpty then groupEscape ('\\' :: c :: second)
        else
          let n := octalNumber (c :: second ++ third)
          if 0o377 < n then octalTooLarge ('\\' :: c :: second ++ third) else pure (.char false n)
      else groupEscape ('\\' :: c :: second)
    else do pure (.char false (← plainEscape c))

end Polyscan.Pattern
