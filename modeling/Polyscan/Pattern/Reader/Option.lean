import Polyscan.Pattern.Reader.Basic

/-! Options, which are letters: for the rest of the pattern, or added to and dropped from a group. -/
namespace Polyscan.Pattern

open Text

/-- The option that a letter names. -/
def flag? : Char → Option Flags
  | 'i' => some { ignoreCase := true }
  | 'L' => some {}
  | 'm' => some { multiLine := true }
  | 's' => some { dotAll := true }
  | 'x' => some { verbose := true }
  | 'a' => some { ascii := true }
  | 't' => some { template := true }
  | 'u' => some { unicode := true }
  | _ => none

def flagToken? : List Char → Option (Char × Flags)
  | [c] => (flag? c).map (c, ·)
  | _ => none

/-- A token that is no option: its text if it is a letter, else what is missing. -/
def unknownFlag {α : Type} (t : List Char) (missing : String) : Reader α :=
  let isLetterToken := match t with
    | [c] => isLetter c.toNat
    | _ => false
  fail (if isLetterToken then "unknown flag" else missing) t.length

/-- Reads options to add, starting with one that has been taken; ends with the mark after them. -/
def addedFlags : Nat → Char × Flags → Flags → Reader (Flags × Char)
  | 0, _, added => pure (added, ')')
  | fuel + 1, (c, flag), added => do
    if c = 'L' then fail "bad inline flags: cannot use 'L' flag with a str pattern" 0
    else
      let added := added.union flag
      if (flag.ascii && added.unicode) || (flag.unicode && added.ascii) then
        fail "bad inline flags: flags 'a', 'u' and 'L' are incompatible" 0
      else
        match ← take with
        | none => fail "missing -, : or )" 0
        | some t =>
          if t = [')'] || t = ['-'] || t = [':'] then pure (added, t.headD ')')
          else
            match flagToken? t with
            | some next => addedFlags fuel next added
            | none => unknownFlag t "missing -, : or )"

/-- Reads options to drop, up to the colon. -/
def droppedFlags : Nat → Char × Flags → Flags → Reader Flags
  | 0, _, dropped => pure dropped
  | fuel + 1, (c, flag), dropped => do
    if c = 'L' || flag.ascii || flag.unicode then
      fail "bad inline flags: cannot turn off flags 'a', 'u' and 'L'" 0
    else
      let dropped := dropped.union flag
      match ← take with
      | none => fail "missing :" 0
      | some t =>
        if t = [':'] then pure dropped
        else
          match flagToken? t with
          | some next => droppedFlags fuel next dropped
          | none => unknownFlag t "missing :"

/-- Reads options that start with a given token: for the rest of the pattern, or for a group. -/
def readFlags (t : List Char) : Reader (Option (Flags × Flags)) := do
  let n ← remaining
  let (added, mark) ←
    match flagToken? t with
    | some first => addedFlags (n + 1) first {}
    | none => pure (({} : Flags), '-')
  if mark = ')' then
    modify fun s => { s with flags := s.flags.union added }
    pure none
  else if added.template then fail "bad inline flags: cannot turn on global flag" 1
  else
    let dropped ←
      if mark = '-' then
        match ← take with
        | none => fail "missing flag" 0
        | some t =>
          match flagToken? t with
          | some first => droppedFlags (n + 1) first {}
          | none => unknownFlag t "missing flag"
      else pure {}
    if dropped.template then fail "bad inline flags: cannot turn off global flag" 1
    else if added.meets dropped then fail "bad inline flags: flag turned on and off" 1
    else pure (some (added, dropped))

end Polyscan.Pattern
