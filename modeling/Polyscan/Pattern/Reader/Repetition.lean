import Polyscan.Pattern.Reader.Escape

/-! Repetitions: their bounds, their mode, and what may be repeated. -/
namespace Polyscan.Pattern

/-- Counts from here on are refused. -/
def countLimit : Nat := 4294967295

/-- The bounds between braces, or nothing if what follows is no repetition. -/
def readBounds : Reader (Option (Nat × Option Nat)) := do
  let start := (← get).rest
  if (← peek) = some ['\x7d'] then pure none
  else
    let n := start.length
    let low ← takeWhile isDigitChar n
    let high ← if ← takeIf ',' then takeWhile isDigitChar n else pure low
    if !(← takeIf '\x7d') then
      modify fun s => { s with rest := start }
      pure none
    else
      let least := decimalNumber low
      let most := decimalNumber high
      if countLimit ≤ least then throw .countTooLarge
      else if high.isEmpty then pure (some (least, none))
      else if countLimit ≤ most then throw .countTooLarge
      else if most < least then failAt "min repeat greater than max repeat" n
      else pure (some (least, some most))

/-- Reads the mark of a lazy or possessive repetition. -/
def readMode : Reader LoopMode := do
  if ← takeIf '?' then return .lazy
  if ← takeIf '+' then return .possessive
  return .greedy

/-- Puts a repetition around the part that was read last; `marked` is what remained at its mark. -/
def quantify (marked : Nat) (least : Nat) (most : Option Nat) (read : List Tree) :
    Reader (List Tree) := do
  match read with
  | [] | .anchor _ :: _ => failAt "nothing to repeat" marked
  | .loop .. :: _ => failAt "multiple repeat" marked
  | item :: before =>
    let mode ← readMode
    pure (.loop mode least most item :: before)

end Polyscan.Pattern
