import Polyscan.Schema.Basic

/-! Numbers as data may spell them: truth values, integral doubles and strings stand for numbers. -/
namespace Polyscan.Schema

def trimNumber (s : String) : List Char := Text.trimChars (fun c => Text.isNumberSpace c.toNat) s.toList

def isDigitChar (c : Char) : Bool := Text.isAsciiDigit c.toNat

def digitsNumber (ds : List Char) : Nat := ds.foldl (fun n c => n * 10 + (c.toNat - 48)) 0

/-- Removes low lines, each of which must stand alone between other characters. -/
def dropLowLines : List Char → Option (List Char)
  | [] => some []
  | '_' :: _ => none
  | c :: '_' :: d :: rest => if d = '_' then none else (dropLowLines (d :: rest)).map (c :: ·)
  | _ :: ['_'] => none
  | c :: rest => (dropLowLines rest).map (c :: ·)

/-- The sign in front of a number, and the rest. -/
def takeSign : List Char → Bool × List Char
  | '-' :: rest => (true, rest)
  | '+' :: rest => (false, rest)
  | s => (false, s)

/-- A whole number in decimal digits, with a sign, low lines between digits, and a fraction of zeros. -/
def wholeNumberText? (s : String) : Option Int := do
  let (negative, rest) := takeSign (trimNumber s)
  let whole := rest.takeWhile (· ≠ '.')
  let fraction := (rest.dropWhile (· ≠ '.')).drop 1
  if fraction.all (· = '0') then
    let digits ← dropLowLines whole
    if digits.isEmpty || !digits.all isDigitChar || digitLimit < digits.length then none
    else
      let n : Int := digitsNumber digits
      pure (if negative then -n else n)
  else none

/-- The whole number that a value stands for. -/
def laxWholeNumber? : Json → Option Int
  | .str s => wholeNumberText? s
  | v => v.asInt?

/-- A decimal number: digits with an optional point among or around them, and an optional exponent. -/
def decimalText? (negative : Bool) (s : List Char) : Option Double :=
  let whole := s.takeWhile isDigitChar
  let rest := s.dropWhile isDigitChar
  let (fraction, rest) :=
    match rest with
    | '.' :: tail => (tail.takeWhile isDigitChar, tail.dropWhile isDigitChar)
    | _ => ([], rest)
  if whole.isEmpty && fraction.isEmpty then none
  else
    let digits := digitsNumber (whole ++ fraction)
    let scale : Int := -(fraction.length : Int)
    match rest with
    | [] => some (.ofDecimal negative digits scale)
    | e :: tail =>
      if e = 'e' ∨ e = 'E' then
        let (down, power) := takeSign tail
        if power.isEmpty || !power.all isDigitChar then none
        else
          let n : Int := digitsNumber power
          some (.ofDecimal negative digits (scale + if down then -n else n))
      else none

/-- A number in decimal notation, or one of the names of infinity and of no number. -/
def floatText? (s : List Char) : Option Double :=
  let (negative, rest) := takeSign s
  let word := String.ofList (rest.map Char.toLower)
  if word = "inf" ∨ word = "infinity" then some (.infinity negative)
  else if word = "nan" then some .nan
  else decimalText? negative rest

/-- A number of any kind, also spelled as a string. -/
def number : Json → Checked Double
  | .real x => .good x
  | .int n =>
    match Double.ofInt n with
    | .infinity _ => .complain .number
    | x => .good x
  | .bool b => .good (.ofNat (if b then 1 else 0))
  | .str s =>
    let text := trimNumber s
    match floatText? text with
    | some x => .good x
    | none =>
      match dropLowLines text >>= floatText? with
      | some x => .good x
      | none => .complain .numberText
  | _ => .complain .number

/-- One of the values whose numbers are given, chosen by number. -/
def numbered {α : Type} (choices : String) (ofNumber? : Int → Option α) (v : Json) : Checked α :=
  match laxWholeNumber? v >>= ofNumber? with
  | some a => .good a
  | none => .complain (.option choices)

/-- The values in quotes as a list that ends in "or". -/
def quotedChoices : List String → String
  | [] => ""
  | [a] => Text.quoted a
  | [a, b] => Text.quoted a ++ " or " ++ Text.quoted b
  | a :: rest => Text.quoted a ++ ", " ++ quotedChoices rest

/-- One of the values whose names are given, chosen by exact name. -/
def named {α : Type} (choices : List (String × α)) : Json → Checked α
  | .str s =>
    match OrderedMap.find s choices with
    | some a => .good a
    | none => .complain (.option (quotedChoices (choices.map Prod.fst)))
  | _ => .complain (.option (quotedChoices (choices.map Prod.fst)))

end Polyscan.Schema
