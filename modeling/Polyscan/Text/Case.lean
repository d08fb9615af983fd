import Polyscan.Text.Class
import Polyscan.Text.Property.CaseMap
import Polyscan.Text.Property.Cased

/-! Upper and lower case of characters and of text. -/
namespace Polyscan.Text

/-- The run of an ascending table that holds `c`, among the entries `lo … hi`. -/
def runBetween (table : Array CaseRun) (c : Nat) : Nat → Nat → Nat → Option CaseRun
  | 0, _, _ => none
  | steps + 1, lo, hi =>
    if lo < hi then
      let mid := (lo + hi) / 2
      match table[mid]? with
      | none => none
      | some run =>
        if c < run.first then runBetween table c steps lo mid
        else if run.last < c then runBetween table c steps (mid + 1) hi
        else if (c - run.first) % run.step = 0 then some run else none
    else none

/-- Moves a code point by the run that holds it; one in no run stays. -/
def mapCase (table : Array CaseRun) (c : Nat) : Nat :=
  match runBetween table c (table.size.log2 + 2) 0 table.size with
  | some run => (c + run.shift).toNat
  | none => c

/-- The lower case of one code point as one code point. -/
def lowerOf (c : Nat) : Nat :=
  if c < 128 then if 65 ≤ c ∧ c ≤ 90 then c + 32 else c else mapCase lowerRuns c

/-- The upper case of one code point where that is one code point; else the code point itself. -/
def upperOf (c : Nat) : Nat :=
  if c < 128 then if 97 ≤ c ∧ c ≤ 122 then c - 32 else c else mapCase upperRuns c

/-- A code point that differs from one of its case forms. -/
def hasCase (c : Nat) : Bool :=
  lowerOf c != c || upperOf c != c || (128 ≤ c && longUpper.any fun e => e.1 == c)

/-- The upper case of a character, which may be several characters. -/
def upperChars (c : Char) : List Char :=
  if c.toNat < 128 then [Char.ofNat (upperOf c.toNat)]
  else
    match longUpper.find? fun e => e.1 == c.toNat with
    | some (_, cs) => cs.map Char.ofNat
    | none => [Char.ofNat (upperOf c.toNat)]

def upper (s : String) : String := String.ofList (s.toList.flatMap upperChars)

/-- The first character that is not passed over decides whether there is a cased one. -/
def seesCased (l : List Char) : Bool :=
  match l.dropWhile fun c => within caseIgnorableBounds c.toNat with
  | [] => false
  | c :: _ => within casedBounds c.toNat

/-- The lower case of a list; `before` holds the characters in front of it, nearest first. A sigma
that ends a word, with a cased character before it and none after it, takes its final form, and a
dotted capital i keeps its dot. -/
def lowerAfter (before : List Char) : List Char → List Char
  | [] => []
  | c :: rest =>
    if c.toNat = 0x3a3 then
      Char.ofNat (if seesCased before && !seesCased rest then 0x3c2 else 0x3c3) ::
        lowerAfter (c :: before) rest
    else if c.toNat = 0x130 then
      'i' :: Char.ofNat 0x307 :: lowerAfter (c :: before) rest
    else Char.ofNat (lowerOf c.toNat) :: lowerAfter (c :: before) rest

def lower (s : String) : String := String.ofList (lowerAfter [] s.toList)

end Polyscan.Text
