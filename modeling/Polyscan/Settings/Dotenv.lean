import Polyscan.OrderedMap
import Polyscan.Text.Basic

/-!
Files of settings: one name and value per line, with comments, quotes that may span lines, and references
to values set before.
-/
namespace Polyscan.Dotenv

/-- White space within a line. -/
def isGap (c : Char) : Bool := Text.isBlank c.toNat && c ≠ '\n' && c ≠ '\r'

def isEnd (c : Char) : Bool := c = '\n' || c = '\r'

def skipGap (s : List Char) : List Char := s.dropWhile isGap

/-- The text up to a closing quote. A backslash keeps the quote after it from closing, unless no other
quote follows. -/
def quotedPart (quote : Char) : List Char → Option (List Char × List Char)
  | [] => none
  | '\\' :: c :: rest =>
    if c = quote then
      match quotedPart quote rest with
      | some (v, tail) => some ('\\' :: c :: v, tail)
      | none => some (['\\'], rest)
    else (quotedPart quote (c :: rest)).map fun (v, tail) => ('\\' :: v, tail)
  | c :: rest =>
    if c = quote then some ([], rest)
    else (quotedPart quote rest).map fun (v, tail) => (c :: v, tail)

/-- The character that a letter after a backslash stands for in single quotes. -/
def singleEscape? : Char → Option Char
  | '\\' => some '\\'
  | '\'' => some '\''
  | _ => none

/-- The character that a letter after a backslash stands for in double quotes. -/
def doubleEscape? : Char → Option Char
  | '\\' => some '\\'
  | '\'' => some '\''
  | '"' => some '"'
  | 'a' => some '\x07'
  | 'b' => some '\x08'
  | 'f' => some '\x0c'
  | 'n' => some '\n'
  | 'r' => some '\r'
  | 't' => some '\t'
  | 'v' => some '\x0b'
  | _ => none

def decodeEscapes (escape? : Char → Option Char) : List Char → List Char
  | '\\' :: c :: rest =>
    match escape? c with
    | some d => d :: decodeEscapes escape? rest
    | none => '\\' :: decodeEscapes escape? (c :: rest)
  | c :: rest => c :: decodeEscapes escape? rest
  | [] => []

/-- Cuts a value before the first comment that has white space in front of it. -/
def dropComment : List Char → List Char
  | [] => []
  | c :: rest =>
    if Text.isBlank c.toNat &&
        (rest.dropWhile fun d => Text.isBlank d.toNat).head? == some '#' then []
    else c :: dropComment rest

def trimEnd (s : List Char) : List Char := Text.dropEnd (fun c => Text.isBlank c.toNat) s

/-- What a line gives: nothing, or a name with its value if it has one. A line that cannot be read ends
where the reading stopped. -/
inductive Line where
  | binding (name : Option String) (value : Option (List Char)) (rest : List Char)
  | broken (rest : List Char)

/-- A name, in single quotes or up to a space, an equals sign or a comment. -/
def name (s : List Char) : Option (Option String × List Char) :=
  match s with
  | '#' :: _ => some (none, s)
  | '\'' :: rest =>
    let part := rest.takeWhile (· ≠ '\'')
    match part, rest.dropWhile (· ≠ '\'') with
    | _ :: _, _ :: tail => some (some (String.ofList part), tail)
    | _, _ => none
  | _ =>
    let inName (c : Char) : Bool := c ≠ '=' && c ≠ '#' && !Text.isBlank c.toNat
    match s.takeWhile inName with
    | [] => none
    | part => some (some (String.ofList part), s.dropWhile inName)

/-- A value after its equals sign. -/
def value (s : List Char) : Option (List Char × List Char) :=
  match s with
  | '\'' :: rest => (quotedPart '\'' rest).map fun (v, tail) => (decodeEscapes singleEscape? v, tail)
  | '"' :: rest => (quotedPart '"' rest).map fun (v, tail) => (decodeEscapes doubleEscape? v, tail)
  | _ =>
    let part := s.takeWhile (!isEnd ·)
    some (trimEnd (dropComment part), s.dropWhile (!isEnd ·))

/-- What follows the end of a line, if nothing but white space and a comment is before it. -/
def lineEnd? (s : List Char) : Option (List Char) :=
  let s := if (skipGap s).head? = some '#' then (skipGap s).dropWhile (!isEnd ·) else s
  match skipGap s with
  | [] => some []
  | '\r' :: '\n' :: rest => some rest
  | c :: rest => if isEnd c then some rest else none

/-- Drops the rest of a line with its end. -/
def dropLine (s : List Char) : List Char := (s.dropWhile (!isEnd ·)).drop 1

/-- Skips the word that may stand before a name. -/
def skipExport (s : List Char) : List Char :=
  match s with
  | 'e' :: 'x' :: 'p' :: 'o' :: 'r' :: 't' :: c :: rest => if isGap c then skipGap rest else s
  | _ => s

def line (s : List Char) : Line :=
  let s := s.dropWhile fun c => Text.isBlank c.toNat
  if s.isEmpty then .binding none none []
  else
    let s := skipExport s
    match name s with
    | none => .broken (dropLine s)
    | some (n, s) =>
      let s := skipGap s
      let bound : Option (Option (List Char) × List Char) :=
        match s with
        | '=' :: rest => (value (skipGap rest)).map fun (v, tail) => (some v, tail)
        | _ => some (none, s)
      match bound, s with
      | none, '=' :: rest => .broken (dropLine (skipGap rest))
      | none, _ => .broken (dropLine s)
      | some (v, tail), _ =>
        match lineEnd? tail with
        | some rest => .binding n v rest
        | none =>
          let tail := if (skipGap tail).head? = some '#' then
            (skipGap tail).dropWhile (!isEnd ·) else tail
          .broken (dropLine tail)

/-- The names and values of a text, in order. Every line uses up some of the text. -/
def bindings : Nat → List Char → List (String × Option (List Char))
  | 0, _ => []
  | _, [] => []
  | fuel + 1, s =>
    match line s with
    | .binding (some n) v rest => (n, v) :: bindings fuel rest
    | .binding none _ rest => bindings fuel rest
    | .broken rest => bindings fuel rest

/-- A reference between braces after a dollar sign: the name, and what stands for it if it is unset. -/
def reference? (s : List Char) : Option (String × List Char × List Char) :=
  let isPlain (c : Char) : Bool := c ≠ '\x7d' && c ≠ ':'
  let n := String.ofList (s.takeWhile isPlain)
  match s.dropWhile isPlain with
  | '\x7d' :: rest => some (n, [], rest)
  | ':' :: '-' :: rest =>
    match rest.dropWhile (· ≠ '\x7d') with
    | _ :: tail => some (n, rest.takeWhile (· ≠ '\x7d'), tail)
    | [] => none
  | _ => none

/-- Puts values in the place of references. -/
def expand (lookUp : String → Option (Option (List Char))) : Nat → List Char → List Char
  | 0, s => s
  | _, [] => []
  | fuel + 1, '$' :: '\x7b' :: rest =>
    match reference? rest with
    | some (n, other, tail) =>
      (match lookUp n with
       | some v => v.getD []
       | none => other) ++ expand lookUp fuel tail
    | none => '$' :: expand lookUp fuel ('\x7b' :: rest)
  | fuel + 1, c :: rest => c :: expand lookUp fuel rest

/-- Resolves references to values set before, or else to the environment. -/
def resolve (env : List (String × String)) (done : List (String × Option (List Char))) :
    List (String × Option (List Char)) → List (String × Option (List Char))
  | [] => done
  | (n, v) :: rest =>
    let lookUp (m : String) : Option (Option (List Char)) :=
      match OrderedMap.find m done with
      | some w => some w
      | none => (OrderedMap.find m env).map fun w => some w.toList
    resolve env (OrderedMap.put n (v.map fun s => expand lookUp (s.length + 1) s) done) rest

/-- The settings of a text; a name without a value has none. -/
def read (env : List (String × String)) (text : List Char) : List (String × Option String) :=
  (resolve env [] (bindings (text.length + 1) text)).map fun b => (b.1, b.2.map String.ofList)

end Polyscan.Dotenv
