import Polyscan.Pattern.Syntax
import Polyscan.Text.Case
import Polyscan.Text.Class

/-!
Which characters a part of a pattern takes. Without regard to case a character is compared by its lower
case, and a lower case that shares its upper case with others stands for those too.
-/
namespace Polyscan.Pattern

open Text

def newline : Nat := 10

/-- Lower case in the alphabet that the options name. -/
def fold (flags : Flags) (c : Nat) : Nat :=
  if flags.ascii then if 65 ≤ c ∧ c ≤ 90 then c + 32 else c else lowerOf c

def isCased (flags : Flags) (c : Nat) : Bool :=
  if flags.ascii then isAsciiLetter c else hasCase c

/-- The other lower-case characters that share the upper case of a lower-case one. -/
def companions (flags : Flags) (c : Nat) : List Nat :=
  if flags.ascii then []
  else
    match sameUpper.find? fun e => e.1 == c with
    | some (_, others) => others
    | none => []

def CharKind.holds (flags : Flags) (k : CharKind) (c : Nat) : Bool :=
  if flags.ascii then
    match k with
    | .digit => isAsciiDigit c
    | .space => c == 32 || (9 ≤ c && c ≤ 13)
    | .word => isAsciiLetter c || isAsciiDigit c || c == 95
  else
    match k with
    | .digit => isDecimal c
    | .space => isBlank c
    | .word => isWord c

/-- One character of a pattern against one of the text. -/
def charMatches (flags : Flags) (c x : Nat) : Bool :=
  if flags.ignoreCase && isCased flags c then
    let low := fold flags c
    let y := fold flags x
    y == low || (companions flags low).contains y
  else c == x

/-- The characters of the basic plane. -/
def basicLimit : Nat := 0xffff

/-- Whether a member makes its set compare by lower case. -/
def Member.isCased (flags : Flags) : Member → Bool
  | .one c => basicLimit < fold flags c || Pattern.isCased flags c
  | .range first last =>
    basicLimit < last || (List.range' first (last + 1 - first)).any (Pattern.isCased flags)
  | .kind .. => false

/-- A member against a character as it stands. -/
def Member.holds (flags : Flags) (x : Nat) : Member → Bool
  | .one c => c == x
  | .range first last => first ≤ x && x ≤ last
  | .kind negated k => k.holds flags x != negated

/-- Whether a character of the basic plane is the lower case, or a companion of it, of one in a range. -/
def foldedRange (flags : Flags) (first last x : Nat) : Bool :=
  (List.range' first (min last basicLimit + 1 - first)).any fun c =>
    let low := fold flags c
    low == x || (companions flags low).contains x

/-- A member against a character in lower case. Beyond the basic plane a single character is compared as
it stands, and a range also takes the characters whose upper case it holds. -/
def Member.holdsFolded (flags : Flags) (x : Nat) : Member → Bool
  | .one c =>
    let low := fold flags c
    if basicLimit < low then c == x else low == x || (companions flags low).contains x
  | .range first last =>
    foldedRange flags first last x ||
      (basicLimit < last && ((first ≤ x && x ≤ last) || (first ≤ upperOf x && upperOf x ≤ last)))
  | .kind negated k => k.holds flags x != negated

/-- A set against a character. -/
def setMatches (flags : Flags) (negated : Bool) (members : List Member) (x : Nat) : Bool :=
  let holds :=
    if flags.ignoreCase && members.any (Member.isCased flags) then
      let y := fold flags x
      members.any (Member.holdsFolded flags y)
    else members.any (Member.holds flags x)
  holds != negated

end Polyscan.Pattern
