/-!
Lines of text: line breaks of all kinds, newlines made uniform, and positions as line and column.
-/
namespace Polyscan.Text

/-- Characters that end a line where a text is read as a list of records. -/
def isLineBreak (c : Char) : Bool :=
  let n := c.toNat
  (10 ≤ n && n ≤ 13) || (28 ≤ n && n ≤ 30) || n == 0x85 || n == 0x2028 || n == 0x2029

/-- The lines of a text, without their breaks; a carriage return with a newline is one break, and a
break at the end opens no further line. `line` holds the current line, last character first. -/
def linesFrom (line : List Char) : List Char → List (List Char)
  | [] => if line.isEmpty then [] else [line.reverse]
  | '\r' :: '\n' :: rest => line.reverse :: linesFrom [] rest
  | c :: rest => if isLineBreak c then line.reverse :: linesFrom [] rest else linesFrom (c :: line) rest

def lines (s : String) : List String := (linesFrom [] s.toList).map String.ofList

/-- Turns carriage returns, alone or before a newline, into newlines. -/
def uniformNewlines : List Char → List Char
  | [] => []
  | '\r' :: '\n' :: rest => '\n' :: uniformNewlines rest
  | c :: rest => (if c = '\r' then '\n' else c) :: uniformNewlines rest

/-- A place in a text; both numbers count from one. -/
structure Position where
  line : Nat
  column : Int
  deriving DecidableEq, Repr

/-- The offsets at which lines begin, for a text that starts at `offset` in the middle of a line. -/
def startsFrom (offset : Nat) : List Char → List Nat
  | [] => []
  | c :: rest =>
    if c = '\n' then (offset + 1) :: startsFrom (offset + 1) rest else startsFrom (offset + 1) rest

/-- The offsets at which the lines of a text begin; the first is zero. -/
def lineStarts (s : List Char) : Array Nat := (0 :: startsFrom 0 s).toArray

/-- The last index between `lo` and `hi` whose start is at most `offset`, by halving; `lo` is kept when
none is. -/
def lineIndex (starts : Array Nat) (offset : Int) (lo hi : Nat) : Nat :=
  if lo < hi then
    let mid := (lo + hi + 1) / 2
    if (starts.getD mid 0 : Int) ≤ offset then lineIndex starts offset mid hi
    else lineIndex starts offset lo (mid - 1)
  else lo
termination_by hi - lo
decreasing_by all_goals omega

/-- The place of an offset. -/
def position (starts : Array Nat) (offset : Int) : Position :=
  let i := lineIndex starts offset 0 (starts.size - 1)
  ⟨i + 1, offset - (starts.getD i 0 : Int) + 1⟩

/-- Counts line and column character by character: the meaning of `position`. -/
def advance (p : Position) (c : Char) : Position :=
  if c = '\n' then ⟨p.line + 1, 1⟩ else ⟨p.line, p.column + 1⟩

/-- The place after the given characters. -/
def positionAfter (s : List Char) : Position := s.foldl advance ⟨1, 1⟩

end Polyscan.Text
