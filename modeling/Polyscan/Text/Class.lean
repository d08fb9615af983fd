import Polyscan.Text.Property.Identifier
import Polyscan.Text.Property.Letter
import Polyscan.Text.Property.Numeral
import Polyscan.Text.Property.Printable

/-!
Classes of characters, by code point. Patterns test code points that need not be characters, so every
class is a predicate on `Nat`.
-/
namespace Polyscan.Text

/-! Sets of code points given by their boundaries: an ascending table of the points at which membership
changes, beginning outside. A point is a member when an odd number of boundaries lie at or below it. -/

/-- Halves the stretch `lo … hi` until it is empty; `hi` is then the first index whose entry is above
`c`, provided the entries ascend. -/
def rankBetween (table : Array Nat) (c : Nat) : Nat → Nat → Nat → Nat
  | 0, lo, _ => lo
  | steps + 1, lo, hi =>
    if lo < hi then
      let mid := (lo + hi) / 2
      if table.getD mid 0 ≤ c then rankBetween table c steps (mid + 1) hi
      else rankBetween table c steps lo mid
    else lo

/-- The number of entries of an ascending table that are at most `c`. -/
def rank (table : Array Nat) (c : Nat) : Nat :=
  rankBetween table c (table.size.log2 + 2) 0 table.size

/-- Membership in the set with the given boundaries. -/
def within (bounds : Array Nat) (c : Nat) : Bool := rank bounds c % 2 == 1

/-- White space as it is stripped from names and matched by patterns: the ASCII blanks with the four
separator controls, and the Unicode separators. -/
def isBlank (c : Nat) : Bool :=
  (9 ≤ c && c ≤ 13) || (28 ≤ c && c ≤ 32) || c == 0x85 || c == 0xa0 || c == 0x1680 ||
  (0x2000 ≤ c && c ≤ 0x200a) || c == 0x2028 || c == 0x2029 || c == 0x202f || c == 0x205f ||
  c == 0x3000

/-- White space around a number in data: as `isBlank` without the separator controls. -/
def isNumberSpace (c : Nat) : Bool := isBlank c && !(28 ≤ c && c ≤ 31)

def isLetter (c : Nat) : Bool := within letterBounds c

/-- The value of a decimal digit of any script. -/
def decimalValue? (c : Nat) : Option Nat :=
  if c < 128 then
    if 48 ≤ c ∧ c ≤ 57 then some (c - 48) else none
  else
    match rank decimalZeros c with
    | 0 => none
    | i + 1 =>
      let first := decimalZeros.getD i 0
      if c - first < 10 then some (c - first) else none

def isDecimal (c : Nat) : Bool := (decimalValue? c).isSome

/-- Digits: the decimal ones, and those such as superscripts that form no decimal numbers. -/
def isDigit (c : Nat) : Bool := isDecimal c || within otherDigitBounds c

/-- Letters, digits and other numeric characters. -/
def isAlphanumeric (c : Nat) : Bool := isLetter c || isDecimal c || within otherNumericBounds c

/-- Characters of words: the alphanumeric ones and the low line. -/
def isWord (c : Nat) : Bool := c == 95 || isAlphanumeric c

def isPrintable (c : Nat) : Bool := !(0xd800 ≤ c && c ≤ 0xdfff) && !within unprintableBounds c

def isIdentifierStart (c : Nat) : Bool :=
  within startAlsoBounds c || (isLetter c && !within startExceptBounds c)

def isIdentifierContinue (c : Nat) : Bool := isIdentifierStart c || within continueAlsoBounds c

/-- A name as programs write them: a starting character, then continuing ones. -/
def isIdentifier : List Char → Bool
  | [] => false
  | c :: rest => isIdentifierStart c.toNat && rest.all fun d => isIdentifierContinue d.toNat

def isAsciiLetter (c : Nat) : Bool := (65 ≤ c && c ≤ 90) || (97 ≤ c && c ≤ 122)

def isAsciiDigit (c : Nat) : Bool := 48 ≤ c && c ≤ 57

/-- The value of a hexadecimal digit. -/
def hexValue? (c : Char) : Option Nat :=
  let n := c.toNat
  if 48 ≤ n ∧ n ≤ 57 then some (n - 48)
  else if 97 ≤ n ∧ n ≤ 102 then some (n - 87)
  else if 65 ≤ n ∧ n ≤ 70 then some (n - 55)
  else none

end Polyscan.Text
