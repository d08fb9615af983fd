/-!
Double-precision numbers as exact values: a sign, a mantissa of at most 53 bits and a power of two.
-/
namespace Polyscan

/-- `finite negative m e` is `m · 2 ^ e` with its sign. Zero has both signs. -/
inductive Double where
  | finite (negative : Bool) (mantissa : Nat) (exponent : Int)
  | infinity (negative : Bool)
  | nan
  deriving DecidableEq, Repr, Inhabited

namespace Double

/-- Rounds a quotient to the nearest whole number, a half to the even one. -/
def roundDiv (num den : Nat) : Nat :=
  let q := num / den
  let r := num % den
  if 2 * r < den then q else if den < 2 * r then q + 1 else q + q % 2

/-- The exponent of the greatest power of two that is at most the positive quotient. -/
def logRatio (num den : Nat) : Int :=
  let k : Int := (num.log2 : Int) - (den.log2 : Int)
  if num * Nat.pow 2 (-k).toNat < den * Nat.pow 2 k.toNat then k - 1 else k

/-- The double nearest to a quotient; of two equally near the one with even mantissa. -/
def ofRatio (negative : Bool) (num den : Nat) : Double :=
  if num = 0 then .finite negative 0 (-1074)
  else
    let e := max (logRatio num den - 52) (-1074)
    let m := roundDiv (num * Nat.pow 2 (-e).toNat) (den * Nat.pow 2 e.toNat)
    let (m, e) := if m = Nat.pow 2 53 then (Nat.pow 2 52, e + 1) else (m, e)
    if 971 < e then .infinity negative else .finite negative m e

def ofNat (n : Nat) : Double := ofRatio false n 1

def ofInt (n : Int) : Double := ofRatio (decide (n < 0)) n.natAbs 1

/-- Numerator and denominator of the absolute value of `m · 2 ^ e`. -/
def ratio (m : Nat) (e : Int) : Nat × Nat := (m * Nat.pow 2 e.toNat, Nat.pow 2 (-e).toNat)

/-- The whole number a double is, if it is one. -/
def toInt? : Double → Option Int
  | .finite negative m e =>
    let (num, den) := ratio m e
    if num % den = 0 then
      let n : Int := num / den
      some (if negative then -n else n)
    else none
  | _ => none

def isZero : Double → Bool
  | .finite _ 0 _ => true
  | _ => false

/-- The double nearest to `digits · 10 ^ scale`. Magnitudes far outside the range are settled before any
power is taken. -/
def ofDecimal (negative : Bool) (digits : Nat) (scale : Int) : Double :=
  if digits = 0 then .finite negative 0 (-1074)
  else
    let magnitude : Int := (Nat.toDigits 10 digits).length + scale
    if 320 < magnitude then .infinity negative
    else if magnitude < -340 then .finite negative 0 (-1074)
    else ofRatio negative (digits * Nat.pow 10 scale.toNat) (Nat.pow 10 (-scale).toNat)

/-- The double nearest to the value rounded to a number of places, a half to the even neighbour. -/
def roundTo (places : Nat) : Double → Double
  | .finite negative m e =>
    let (num, den) := ratio m e
    ofRatio negative (roundDiv (num * Nat.pow 10 places) den) (Nat.pow 10 places)
  | d => d

end Double

end Polyscan
