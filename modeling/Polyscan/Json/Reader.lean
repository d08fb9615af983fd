import Polyscan.Json.Basic
import Polyscan.Number.Decimal
import Polyscan.Text.Class
import Polyscan.Text.CodePoint

/-!
Reading values from text. A failure says how many characters were left at the place to blame, so that
the place is the length of the text less that number. Strings are read as code points, because escapes can
name surrogates that stand alone.
-/
namespace Polyscan.Json

inductive ReadProblem where
  | byteOrderMark
  | value
  | propertyName
  | colon
  | comma
  | extraData
  | unterminated
  | control
  | escape
  | unicodeEscape
  | tooManyDigits (count : Nat)
  deriving DecidableEq, Repr

structure ReadError where
  problem : ReadProblem
  remaining : Nat
  deriving DecidableEq, Repr

def failAt {α : Type} (problem : ReadProblem) (rest : List Char) : Except ReadError α :=
  .error ⟨problem, rest.length⟩

def isSpace (c : Char) : Bool := c == ' ' || c == '\t' || c == '\n' || c == '\r'

def skipSpace (s : List Char) : List Char := s.dropWhile isSpace

/-- The value of exactly four hexadecimal digits, and what follows them. -/
def hex4? : List Char → Option (Nat × List Char)
  | a :: b :: c :: d :: rest => do
    let a ← Text.hexValue? a
    let b ← Text.hexValue? b
    let c ← Text.hexValue? c
    let d ← Text.hexValue? d
    pure (((a * 16 + b) * 16 + c) * 16 + d, rest)
  | _ => none

/-- The character that a letter after the backslash stands for. -/
def simpleEscape? : Char → Option Char
  | '"' => some '"'
  | '\\' => some '\\'
  | '/' => some '/'
  | 'b' => some '\x08'
  | 'f' => some '\x0c'
  | 'n' => some '\n'
  | 'r' => some '\r'
  | 't' => some '\t'
  | _ => none

/-- The number after an escape's letter `u`, with the second half of a pair where one follows. An escape
at the very end of the text is not complete. -/
def unicodeEscape (s : List Char) : Except ReadError (CodePoint × List Char) :=
  match hex4? s with
  | none => .error ⟨.unicodeEscape, s.length + 1⟩
  | some (n, rest) =>
    if rest.isEmpty then .error ⟨.unicodeEscape, s.length + 1⟩
    else if 0xd800 ≤ n ∧ n ≤ 0xdbff then
      match rest with
      | '\\' :: 'u' :: tail =>
        if tail.length ≤ 4 then .ok (.ofNat n, rest)
        else
          match hex4? tail with
          | none => .error ⟨.unicodeEscape, tail.length + 1⟩
          | some (m, rest') =>
            if 0xdc00 ≤ m ∧ m ≤ 0xdfff then
              .ok (.ofNat (0x10000 + (n - 0xd800) * 0x400 + (m - 0xdc00)), rest')
            else .ok (.ofNat n, rest)
      | _ => .ok (.ofNat n, rest)
    else .ok (.ofNat n, rest)

/-- Reads a string after its opening quote; `start` is what remained at that quote. -/
def stringBody (start : Nat) :
    Nat → List CodePoint → List Char → Except ReadError (List CodePoint × List Char)
  | 0, _, _ => .error ⟨.unterminated, start⟩
  | _ + 1, _, [] => .error ⟨.unterminated, start⟩
  | fuel + 1, read, c :: rest =>
    if c = '"' then .ok (read.reverse, rest)
    else if c = '\\' then
      match rest with
      | [] => .error ⟨.unterminated, start⟩
      | 'u' :: tail => do
        let (p, rest') ← unicodeEscape tail
        stringBody start fuel (p :: read) rest'
      | e :: tail =>
        match simpleEscape? e with
        | some c => stringBody start fuel (.ofChar c :: read) tail
        | none => failAt .escape (c :: rest)
    else if c.toNat < 32 then failAt .control (c :: rest)
    else stringBody start fuel (.ofChar c :: read) rest

def isAsciiDigit (c : Char) : Bool := Text.isAsciiDigit c.toNat

def digitsValue (ds : List Char) : Nat := ds.foldl (fun n c => n * 10 + (c.toNat - 48)) 0

/-- The whole part of a number: a zero, or digits that start with another one. -/
def wholePart? : List Char → Option (List Char × List Char)
  | '0' :: rest => some (['0'], rest)
  | s =>
    match s.takeWhile isAsciiDigit with
    | [] => none
    | ds => some (ds, s.dropWhile isAsciiDigit)

/-- The digits after a point, if a point with a digit follows. -/
def fractionPart : List Char → List Char × List Char
  | '.' :: rest =>
    match rest.takeWhile isAsciiDigit with
    | [] => ([], '.' :: rest)
    | ds => (ds, rest.dropWhile isAsciiDigit)
  | s => ([], s)

/-- The sign of an exponent, and what follows it. -/
def exponentSign : List Char → Bool × List Char
  | '-' :: rest => (true, rest)
  | '+' :: rest => (false, rest)
  | s => (false, s)

/-- The exponent, if a complete one follows. -/
def exponentPart : List Char → Option Int × List Char
  | [] => (none, [])
  | e :: rest =>
    if e = 'e' ∨ e = 'E' then
      let (negative, tail) := exponentSign rest
      match tail.takeWhile isAsciiDigit with
      | [] => (none, e :: rest)
      | ds =>
        let n : Int := digitsValue ds
        (some (if negative then -n else n), tail.dropWhile isAsciiDigit)
    else (none, e :: rest)

variable {τ : Type}

/-- Reads a number after its sign; `start` is the text from the sign on. -/
def number (negative : Bool) (start s : List Char) : Except ReadError (Json τ × List Char) :=
  match wholePart? s with
  | none => failAt .value start
  | some (whole, rest) =>
    let (fraction, rest) := fractionPart rest
    let (exponent, rest) := exponentPart rest
    if fraction.isEmpty ∧ exponent.isNone then
      if digitLimit < whole.length then failAt (.tooManyDigits whole.length) start
      else
        let n : Int := digitsValue whole
        .ok (.int (if negative then -n else n), rest)
    else
      .ok (.real (Double.ofDecimal negative (digitsValue (whole ++ fraction))
        (exponent.getD 0 - (fraction.length : Int))), rest)

/-- What follows a given word, if the text begins with it. -/
def afterWord? (word s : List Char) : Option (List Char) :=
  if word.isPrefixOf s then some (s.drop word.length) else none

/-- Reads a value that is neither string, list nor object. -/
def scalar (s : List Char) : Except ReadError (Json τ × List Char) :=
  match afterWord? "null".toList s with
  | some rest => .ok (.null, rest)
  | none =>
  match afterWord? "true".toList s with
  | some rest => .ok (.bool true, rest)
  | none =>
  match afterWord? "false".toList s with
  | some rest => .ok (.bool false, rest)
  | none =>
  match afterWord? "NaN".toList s with
  | some rest => .ok (.real .nan, rest)
  | none =>
  match afterWord? "Infinity".toList s with
  | some rest => .ok (.real (.infinity false), rest)
  | none =>
  match afterWord? "-Infinity".toList s with
  | some rest => .ok (.real (.infinity true), rest)
  | none =>
  match s with
  | '-' :: rest => number true s rest
  | _ => number false s s

variable [DecidableEq τ] [IsText τ]

mutual

/-- Reads one value; every nested value uses up at least one character, so the length is fuel enough. -/
def value : Nat → List Char → Except ReadError (Json τ × List Char)
  | 0, s => failAt .value s
  | fuel + 1, s =>
    match s with
    | '"' :: rest => do
      let (points, rest') ← stringBody s.length s.length [] rest
      pure (.str (IsText.ofPoints points), rest')
    | '[' :: rest =>
      match skipSpace rest with
      | ']' :: rest' => .ok (.arr [], rest')
      | rest' => do
        let (items, rest'') ← items fuel rest'
        pure (.arr items, rest'')
    | '\x7b' :: rest =>
      match skipSpace rest with
      | '\x7d' :: rest' => .ok (.obj [], rest')
      | rest' => do
        let (fields, rest'') ← fields fuel [] rest'
        pure (.obj fields, rest'')
    | _ => scalar s

/-- Reads the values of a list up to its bracket. -/
def items : Nat → List Char → Except ReadError (List (Json τ) × List Char)
  | 0, s => failAt .value s
  | fuel + 1, s => do
    let (item, rest) ← value fuel s
    match skipSpace rest with
    | ']' :: rest' => pure ([item], rest')
    | ',' :: rest' =>
      let (more, rest'') ← items fuel (skipSpace rest')
      pure (item :: more, rest'')
    | rest' => failAt .comma rest'

/-- Reads the fields of an object up to its brace. A repeated name keeps its place and takes the later
value. -/
def fields : Nat → List (τ × Json τ) → List Char → Except ReadError (List (τ × Json τ) × List Char)
  | 0, _, s => failAt .value s
  | fuel + 1, read, s =>
    match s with
    | '"' :: rest => do
      let (name, rest) ← stringBody s.length s.length [] rest
      match skipSpace rest with
      | ':' :: rest =>
        let (item, rest) ← value fuel (skipSpace rest)
        let read := OrderedMap.put (IsText.ofPoints name) item read
        match skipSpace rest with
        | '\x7d' :: rest => pure (read, rest)
        | ',' :: rest => fields fuel read (skipSpace rest)
        | rest => failAt .comma rest
      | rest => failAt .colon rest
    | _ => failAt .propertyName s

end

/-- Reads a text that holds one value and nothing else but spaces. -/
def read (text : List Char) : Except ReadError (Json τ) :=
  match text with
  | '\ufeff' :: _ => failAt .byteOrderMark text
  | _ => do
    let (v, rest) ← value (text.length + 1) (skipSpace text)
    match skipSpace rest with
    | [] => pure v
    | rest => failAt .extraData rest

end Polyscan.Json
