import Polyscan.Json.Basic
import Polyscan.Number.Decimal
import Polyscan.Text.CodePoint
import Polyscan.Text.Quoted

/-!
Writing values in ASCII: a blank after every comma and colon, and all other characters as escapes of
four digits, in pairs where one does not suffice. A surrogate that stands alone is an escape like any
other.
-/
namespace Polyscan.Json

variable {τ : Type} [IsText τ]

def escape4 (n : Nat) : List Char := '\\' :: 'u' :: Text.hexPadded 4 n

def writeChar (c : Char) : List Char :=
  if c = '"' then ['\\', '"']
  else if c = '\\' then ['\\', '\\']
  else if c = '\n' then ['\\', 'n']
  else if c = '\r' then ['\\', 'r']
  else if c = '\t' then ['\\', 't']
  else if c = '\x08' then ['\\', 'b']
  else if c = '\x0c' then ['\\', 'f']
  else if 32 ≤ c.toNat ∧ c.toNat < 127 then [c]
  else if c.toNat < 0x10000 then escape4 c.toNat
  else
    let n := c.toNat - 0x10000
    escape4 (0xd800 + n / 0x400) ++ escape4 (0xdc00 + n % 0x400)

def writePoint (p : CodePoint) : List Char :=
  if p.isHigh || p.isLow then escape4 p.value else writeChar p.toChar

def writeString (t : τ) : List Char := '"' :: (IsText.points t).flatMap writePoint ++ ['"']

def writeReal : Double → List Char
  | .nan => "NaN".toList
  | .infinity false => "Infinity".toList
  | .infinity true => "-Infinity".toList
  | x => x.text.toList

mutual

def write : Json τ → List Char
  | null => "null".toList
  | bool b => (if b then "true" else "false").toList
  | int n => (toString n).toList
  | real x => writeReal x
  | str s => writeString s
  | arr items => '[' :: writeItems items ++ [']']
  | obj fields => '\x7b' :: writeFields fields ++ ['\x7d']

def writeItems : List (Json τ) → List Char
  | [] => []
  | [v] => write v
  | v :: rest => write v ++ ',' :: ' ' :: writeItems rest

def writeFields : List (τ × Json τ) → List Char
  | [] => []
  | [(k, v)] => writeString k ++ ':' :: ' ' :: write v
  | (k, v) :: rest => writeString k ++ ':' :: ' ' :: write v ++ ',' :: ' ' :: writeFields rest

end

def render (v : Json τ) : String := String.ofList v.write

/-- The list of the given texts as written data. -/
def renderStrings (texts : List String) : String := render (strings texts)

end Polyscan.Json
