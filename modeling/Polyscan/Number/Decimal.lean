import Polyscan.Number.Double

/-!
Numbers in decimal notation: the limit on the digits of whole numbers, and doubles with a fixed number of
places or with the fewest digits that read back.
-/
namespace Polyscan

/-- The number of decimal digits up to which whole numbers are read and written. -/
def digitLimit : Nat := 4300

/-- What is said of a whole number beyond the limit; only a reader knows the number of its digits. -/
def overlongText (digits : Option Nat) : String :=
  "Exceeds the limit (" ++ toString digitLimit ++ " digits) for integer string conversion" ++
    (match digits with
     | some n => ": value has " ++ toString n ++ " digits"
     | none => "") ++
    "; use sys.set_int_max_str_digits() to increase the limit"

end Polyscan

namespace Polyscan.Double

/-- The digits of a number, filled up with zeros in front. -/
def digitsPadded (width n : Nat) : List Char :=
  let digits := Nat.toDigits 10 n
  List.replicate (width - digits.length) '0' ++ digits

def signed (negative : Bool) (text : List Char) : String :=
  String.ofList (if negative then '-' :: text else text)

/-- Decimal notation with the given number of places, at least one; the sign of zero is shown. -/
def fixed (places : Nat) : Double → String
  | .nan => "nan"
  | .infinity negative => signed negative "inf".toList
  | .finite negative m e =>
    let (num, den) := ratio m e
    let digits := digitsPadded (places + 1) (roundDiv (num * Nat.pow 10 places) den)
    let whole := digits.length - places
    signed negative (digits.take whole ++ '.' :: digits.drop whole)

/-- The position of the decimal point before the first digit of a positive quotient: the least `k` with
`num / den < 10 ^ k`, sought upwards from `k` in at most `steps` steps. -/
def pointFrom (num den : Nat) : Nat → Int → Int
  | 0, k => k
  | steps + 1, k =>
    if num * Nat.pow 10 (-k).toNat < den * Nat.pow 10 k.toNat then k
    else pointFrom num den steps (k + 1)

/-- A start below `pointFrom`'s answer and within two of it. -/
def pointGuess (num den : Nat) : Int :=
  let bits := logRatio num den
  Int.fdiv (bits * 30103) 100000 - 1

/-- Whether `d · 10 ^ scale` lies between the quotients `low / den` and `high / den`. -/
def onGrid (low high den : Nat) (closed : Bool) (d : Nat) (scale : Int) : Bool :=
  let x := d * Nat.pow 10 scale.toNat * den
  let low := low * Nat.pow 10 (-scale).toNat
  let high := high * Nat.pow 10 (-scale).toNat
  if closed then decide (low ≤ x) && decide (x ≤ high) else decide (low < x) && decide (x < high)

/-- Tries one digit, two digits, and so on: the first grid on which a neighbour of the value lies in
the interval wins, and of two such neighbours the nearer. -/
def shortestFrom (num den low high : Nat) (closed : Bool) (point : Int) : Nat → Nat → Nat × Int
  | 0, n =>
    (num * Nat.pow 10 ((n : Int) - point).toNat / (den * Nat.pow 10 (point - (n : Int)).toNat), point - n)
  | tries + 1, n =>
    let scale := point - (n : Int)
    let top := num * Nat.pow 10 (-scale).toNat
    let step := den * Nat.pow 10 scale.toNat
    let d := top / step
    let below := onGrid low high den closed d scale
    let above := onGrid low high den closed (d + 1) scale
    if below && above then (roundDiv top step, scale)
    else if below then (d, scale)
    else if above then (d + 1, scale)
    else shortestFrom num den low high closed point tries (n + 1)

/-- The digits and the scale of the shortest decimal that reads back as `m · 2 ^ e`, for `m > 0`. -/
def shortest (m : Nat) (e : Int) : Nat × Int :=
  let (num, den) := ratio m e
  let unit := Nat.pow 2 e.toNat
  let below := if m = Nat.pow 2 52 ∧ -1074 < e then unit else 2 * unit
  let num := 4 * num
  let den := 4 * den
  shortestFrom num den (num - below) (num + 2 * unit) (m % 2 == 0)
    (pointFrom num den 4 (pointGuess num den)) 17 1

/-- Removes zeros at the end of the digits. -/
def stripZeros : Nat → Nat × Int → Nat × Int
  | 0, x => x
  | n + 1, (d, scale) => if d ≠ 0 ∧ d % 10 = 0 then stripZeros n (d / 10, scale + 1) else (d, scale)

/-- Digits with a point before the digit that the scale says: positional from `10 ^ -4` up to below
`10 ^ 16`, with a fraction of at least one digit; scientific with at least two exponent digits elsewhere. -/
def layout (digits : List Char) (scale : Int) : List Char :=
  let point : Int := digits.length + scale
  if -4 < point ∧ point ≤ 16 then
    if point ≤ 0 then '0' :: '.' :: List.replicate (-point).toNat '0' ++ digits
    else if digits.length ≤ point.toNat then
      digits ++ List.replicate (point.toNat - digits.length) '0' ++ ['.', '0']
    else digits.take point.toNat ++ '.' :: digits.drop point.toNat
  else
    let power := point - 1
    let lead := digits.take 1
    let tail := digits.drop 1
    lead ++ (if tail.isEmpty then [] else '.' :: tail) ++
      'e' :: (if power < 0 then '-' else '+') :: digitsPadded 2 power.natAbs

/-- The fewest digits that read back. -/
def text : Double → String
  | .nan => "nan"
  | .infinity negative => signed negative "inf".toList
  | .finite negative 0 _ => signed negative "0.0".toList
  | .finite negative m e =>
    let shown := stripZeros 20 (shortest m e)
    signed negative (layout (Nat.toDigits 10 shown.1) shown.2)

end Polyscan.Double
