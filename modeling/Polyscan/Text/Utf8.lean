/-!
Text as bytes. Reading fails at the first byte that cannot continue a character, and the failure says
which bytes are to blame.
-/
namespace Polyscan.Text

abbrev Bytes := List UInt8

def encode (s : String) : Bytes := s.toUTF8.toList

inductive Utf8Problem where
  | invalidStart
  | invalidContinuation
  | truncated
  deriving DecidableEq, Repr

def Utf8Problem.text : Utf8Problem → String
  | .invalidStart => "invalid start byte"
  | .invalidContinuation => "invalid continuation byte"
  | .truncated => "unexpected end of data"

/-- A failed reading: the offset of the first bad byte, how many bytes are bad, and the first of them. -/
structure Utf8Error where
  position : Nat
  count : Nat
  byte : UInt8
  problem : Utf8Problem
  deriving DecidableEq, Repr

def Utf8Error.text (e : Utf8Error) : String :=
  let subject :=
    if e.count = 1 then
      let digits := Nat.toDigits 16 e.byte.toNat
      let padded := if digits.length < 2 then '0' :: digits else digits
      "byte 0x" ++ String.ofList padded ++ " in position " ++ toString e.position
    else "bytes in position " ++ toString e.position ++ "-" ++ toString (e.position + e.count - 1)
  "'utf-8' codec can't decode " ++ subject ++ ": " ++ e.problem.text

/-- How a character goes on after its first byte: how many bytes follow, the bounds of the next one,
and the value of the first. -/
def leadByte? (b : UInt8) : Option (Nat × UInt8 × UInt8 × Nat) :=
  let n := b.toNat
  if n < 0x80 then some (0, 0, 0, n)
  else if n < 0xc2 then none
  else if n < 0xe0 then some (1, 0x80, 0xbf, n - 0xc0)
  else if n = 0xe0 then some (2, 0xa0, 0xbf, 0)
  else if n = 0xed then some (2, 0x80, 0x9f, n - 0xe0)
  else if n < 0xf0 then some (2, 0x80, 0xbf, n - 0xe0)
  else if n = 0xf0 then some (3, 0x90, 0xbf, 0)
  else if n = 0xf4 then some (3, 0x80, 0x8f, n - 0xf0)
  else if n < 0xf4 then some (3, 0x80, 0xbf, n - 0xf0)
  else none

/-- The state between two bytes: nothing owed, or a character begun at `start` with `owed` bytes to
come, the next of them between `lo` and `hi`. -/
inductive Utf8State where
  | fresh
  | inside (start : Nat) (first : UInt8) (owed : Nat) (lo hi : UInt8) (value : Nat)

/-- Reads bytes from offset `i` on. -/
def decodeFrom (i : Nat) (state : Utf8State) (bytes : Bytes) : Except Utf8Error (List Char) :=
  match bytes, state with
  | [], .fresh => .ok []
  | [], .inside start first _ _ _ _ => .error ⟨start, i - start, first, .truncated⟩
  | b :: rest, .fresh =>
    match leadByte? b with
    | none => .error ⟨i, 1, b, .invalidStart⟩
    | some (0, _, _, value) => (decodeFrom (i + 1) .fresh rest).map (Char.ofNat value :: ·)
    | some (owed, lo, hi, value) => decodeFrom (i + 1) (.inside i b owed lo hi value) rest
  | b :: rest, .inside start first owed lo hi value =>
    if lo ≤ b ∧ b ≤ hi then
      let value := value * 64 + (b.toNat - 0x80)
      if owed ≤ 1 then (decodeFrom (i + 1) .fresh rest).map (Char.ofNat value :: ·)
      else decodeFrom (i + 1) (.inside start first (owed - 1) 0x80 0xbf value) rest
    else .error ⟨start, i - start, first, .invalidContinuation⟩

/-- The text that the bytes spell. -/
def decode (bytes : Bytes) : Except Utf8Error (List Char) := decodeFrom 0 .fresh bytes

end Polyscan.Text
