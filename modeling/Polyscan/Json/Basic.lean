import Polyscan.Number.Double
import Polyscan.OrderedMap

/-! Data values: what requests, settings, engine output and the audit trail are made of. -/
namespace Polyscan

/-- A data value, with strings and names of some kind of text. The fields of an object keep their order;
the reader gives each name once. -/
inductive Json (τ : Type := String) where
  | null
  | bool (value : Bool)
  | int (value : Int)
  | real (value : Double)
  | str (value : τ)
  | arr (items : List (Json τ))
  | obj (fields : List (τ × Json τ))
  deriving Inhabited, Repr

namespace Json

def strings {τ : Type} (texts : List τ) : Json τ := .arr (texts.map .str)

def nat (n : Nat) : Json := .int n

/-- The value of a part, or null where the part is absent. -/
def optional {α : Type} (f : α → Json) : Option α → Json
  | some a => f a
  | none => .null

/-- The value under a name, if the value is an object that has it. -/
def field? {τ : Type} [DecidableEq τ] (name : τ) : Json τ → Option (Json τ)
  | obj fields => OrderedMap.find name fields
  | _ => none

/-- Absent values count as false, and so do zero and everything empty. -/
def isTruthy : Json → Bool
  | null => false
  | bool b => b
  | int n => n != 0
  | real x => !x.isZero
  | str s => !s.isEmpty
  | arr items => !items.isEmpty
  | obj fields => !fields.isEmpty

mutual

/-- Whether all numbers in a value are finite, so that each of them has a notation. -/
def isFinite : Json → Bool
  | real .nan | real (.infinity _) => false
  | arr items => areFinite items
  | obj fields => haveFinite fields
  | _ => true

def areFinite : List Json → Bool
  | [] => true
  | v :: rest => isFinite v && areFinite rest

def haveFinite : List (String × Json) → Bool
  | [] => true
  | (_, v) :: rest => isFinite v && haveFinite rest

end

/-- The whole number that a number or truth value is equal to. -/
def asInt? : Json → Option Int
  | bool b => some (if b then 1 else 0)
  | int n => some n
  | real x => x.toInt?
  | _ => none

/-- Whether two numbers or truth values are equal as numbers. -/
def sameNumber (a b : Json) : Bool :=
  match a.asInt?, b.asInt? with
  | some m, some n => m == n
  | none, none =>
    match a, b with
    | real .nan, _ => false
    | real x, real y => x == y
    | _, _ => false
  | _, _ => false

mutual

/-- Equality by value: numbers of all kinds compare as numbers, objects without regard to order. -/
def same : Json → Json → Bool
  | null, null => true
  | str s, str t => s == t
  | arr xs, arr ys => sameItems xs ys
  | obj fs, obj gs => fs.length == gs.length && sameFields fs gs
  | a, b => sameNumber a b

def sameItems : List Json → List Json → Bool
  | [], [] => true
  | x :: xs, y :: ys => same x y && sameItems xs ys
  | _, _ => false

def sameFields : List (String × Json) → List (String × Json) → Bool
  | [], _ => true
  | (k, x) :: fs, gs =>
    (match OrderedMap.find k gs with
     | some y => same x y
     | none => false) && sameFields fs gs

end

end Json

end Polyscan
