import Polyscan.Pattern.Syntax
import Polyscan.Text.Basic
import Polyscan.Text.Quoted

/-!
Readers of patterns. The text is read token by token, a token being one character or a backslash with the
character after it, and always one token ahead: a lone backslash at the end is found as soon as the token
before it is taken.
-/
namespace Polyscan.Pattern

open Text

/-- What has been learned about the pattern so far. -/
structure ReadState where
  rest : List Char
  flags : Flags
  names : List (String × Nat) := []
  /-- The widths of the groups opened so far, absent while a group is open. -/
  widths : List (Option Width) := []
  /-- The number of groups that were open or closed when the outermost look behind began. -/
  behind : Option Nat := none
  /-- Groups that conditions ask for, with what remained of the text there. -/
  asked : List (Nat × Nat) := []

/-- Why a text is no pattern. -/
inductive Problem where
  /-- The text is malformed, at a place if one can be named. -/
  | malformed (message : String) (position : Option Nat)
  /-- A repetition count is beyond all bounds. -/
  | countTooLarge
  /-- Both alphabets were asked for. -/
  | bothAlphabets
  deriving DecidableEq, Repr

/-- The text of a problem. It has line and column if the pattern has several lines. -/
def Problem.text (pattern : String) : Problem → String
  | .countTooLarge => "the repetition number is too large"
  | .bothAlphabets => "ASCII and UNICODE flags are incompatible"
  | .malformed message none => message
  | .malformed message (some position) =>
    let base := message ++ " at position " ++ toString position
    if '\n' ∈ pattern.toList then
      let before := pattern.toList.take position
      let line := before.count '\n' + 1
      let column := (before.reverse.takeWhile (· ≠ '\n')).length + 1
      base ++ " (line " ++ toString line ++ ", column " ++ toString column ++ ")"
    else base

/-- A failure names its place by how much of the text remained there. -/
inductive Failure where
  | at (message : String) (remaining : Nat)
  | countTooLarge

abbrev Reader (α : Type) := StateT ReadState (Except Failure) α

def failAt {α : Type} (message : String) (remaining : Nat) : Reader α :=
  throw (.at message remaining)

/-- Fails some characters before the place that has been reached. -/
def fail {α : Type} (message : String) (back : Nat) : Reader α := do
  let s ← get
  failAt message (s.rest.length + back)

def remaining : Reader Nat := do pure (← get).rest.length

/-- The token at the front of a text. -/
def tokenOf : List Char → Option (List Char)
  | [] => none
  | '\\' :: c :: _ => some ['\\', c]
  | c :: _ => some [c]

def peek : Reader (Option (List Char)) := do pure (tokenOf (← get).rest)

/-- Puts the reader before the given text, looking one token ahead. -/
def moveTo (rest : List Char) : Reader Unit :=
  if rest = ['\\'] then failAt "bad escape (end of pattern)" 1
  else modify fun s => { s with rest := rest }

/-- Takes the next token. -/
def take : Reader (Option (List Char)) := do
  let rest := (← get).rest
  match tokenOf rest with
  | none => pure none
  | some t =>
    moveTo (rest.drop t.length)
    pure (some t)

/-- Takes the next token if it is the given character. -/
def takeIf (c : Char) : Reader Bool := do
  if (← peek) = some [c] then
    discard take
    pure true
  else pure false

/-- Takes single characters while they satisfy a condition, at most `n`. -/
def takeWhile (p : Char → Bool) : Nat → Reader (List Char)
  | 0 => pure []
  | n + 1 => do
    match ← peek with
    | some [c] =>
      if p c then
        discard take
        pure (c :: (← takeWhile p n))
      else pure []
    | _ => pure []

/-- Takes tokens up to a character, which is taken too; they must not be empty. -/
def takeUntil (stop : Char) (what : String) : Nat → List Char → Reader (List Char)
  | 0, _ => fail ("missing " ++ what) 0
  | fuel + 1, read => do
    match ← take with
    | none =>
      if read.isEmpty then fail ("missing " ++ what) 0
      else fail ("missing " ++ String.singleton stop ++ ", unterminated name") read.length
    | some t =>
      if t = [stop] then
        if read.isEmpty then fail ("missing " ++ what) 1 else pure read
      else takeUntil stop what fuel (read ++ t)

/-- Takes a name up to a character. -/
def takeName (stop : Char) (what : String) : Reader String := do
  let n ← remaining
  pure (String.ofList (← takeUntil stop what (n + 1) []))

/-- Refuses a name that is no identifier. -/
def checkName (name : String) : Reader Unit :=
  if isIdentifier name.toList then pure ()
  else fail ("bad character in group name " ++ quoted name) (name.length + 1)

end Polyscan.Pattern
