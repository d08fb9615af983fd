import Polyscan.Pattern.Reader.Escape
import Polyscan.Pattern.Reader.Option

/-! The openings of groups, and the numbers, names and widths of the groups that have been opened. -/
namespace Polyscan.Pattern

open Text

/-- What an opening bracket begins. -/
inductive Opening where
  | capture (name : Option String)
  | options (add drop : Flags)
  | atomic
  | look (behind negated : Bool)
  | condition (group : Nat)
  | part (tree : Tree)
  | comment
  | globalOptions

/-- A whole number as it may be written by hand: padded, signed, with low lines between its digits. -/
def looseNumber? (text : List Char) : Option Int := do
  let text := trimChars (fun c => isBlank c.toNat) text
  let (negative, ds) :=
    match text with
    | '-' :: rest => (true, rest)
    | '+' :: rest => (false, rest)
    | _ => (false, text)
  let n ← digits ds false 0
  pure (if negative then -(n : Int) else n)
where
  digits : List Char → Bool → Nat → Option Nat
    | [], after, n => if after then some n else none
    | c :: rest, after, n =>
      if c = '_' then
        match after, rest with
        | true, d :: _ => if isDecimal d.toNat then digits rest false n else none
        | _, _ => none
      else do digits rest true (n * 10 + (← decimalValue? c.toNat))

/-- The number of groups that a pattern may have. -/
def groupLimit : Nat := 1073741823

/-- The group that a condition asks for, by name or number. -/
def conditionGroup : Reader Nat := do
  let name ← takeName ')' "group name"
  let s ← get
  let group ←
    if isIdentifier name.toList then
      match s.names.find? (·.1 = name) with
      | some (_, i) => pure i
      | none => fail ("unknown group name " ++ quoted name) (name.length + 1)
    else
      match looseNumber? name.toList with
      | some (.ofNat i) =>
        if i = 0 then fail "bad group number" (name.length + 1)
        else if groupLimit ≤ i then
          fail ("invalid group reference " ++ toString i) (name.length + 1)
        else do
          if !s.asked.any (·.1 = i) then
            modify fun s => { s with asked := s.asked ++ [(i, s.rest.length + name.length + 1)] }
          pure i
      | _ => fail ("bad character in group name " ++ quoted name) (name.length + 1)
  checkBehind group
  pure group

/-- A reference to a group by name. -/
def namedReference : Reader Tree := do
  let name ← takeName ')' "group name"
  checkName name
  let s ← get
  match s.names.find? (·.1 = name) with
  | none => fail ("unknown group name " ++ quoted name) (name.length + 1)
  | some (_, i) =>
    if (closedWidth? s i).isNone then fail "cannot refer to an open group" (name.length + 1)
    else do
      checkBehind i
      pure (.backref i)

/-- Skips a comment; `opened` is what remained after the opening bracket. -/
def skipComment (opened : Nat) : Nat → Reader Unit
  | 0 => pure ()
  | fuel + 1 => do
    match ← take with
    | none => failAt "missing ), unterminated comment" (opened + 1)
    | some t => if t = [')'] then pure () else skipComment opened fuel

/-- Reads what stands between an opening bracket and the body of its group. -/
def readOpening : Reader Opening := do
  let opened ← remaining
  if !(← takeIf '?') then pure (.capture none)
  else
    match ← take with
    | none => fail "unexpected end of pattern" 0
    | some t =>
      match t with
      | ['P'] =>
        if ← takeIf '<' then
          let name ← takeName '>' "group name"
          checkName name
          pure (.capture (some name))
        else if ← takeIf '=' then do pure (.part (← namedReference))
        else
          match ← take with
          | none => fail "unexpected end of pattern" 0
          | some u => fail ("unknown extension ?P" ++ String.ofList u) (u.length + 2)
      | [':'] => pure (.options {} {})
      | ['#'] =>
        skipComment opened (opened + 1)
        pure .comment
      | ['='] => pure (.look false false)
      | ['!'] => pure (.look false true)
      | ['<'] =>
        match ← take with
        | none => fail "unexpected end of pattern" 0
        | some ['='] => pure (.look true false)
        | some ['!'] => pure (.look true true)
        | some u => fail ("unknown extension ?<" ++ String.ofList u) (u.length + 2)
      | ['('] => do pure (.condition (← conditionGroup))
      | ['>'] => pure .atomic
      | _ =>
        if t = ['-'] || (flagToken? t).isSome then
          match ← readFlags t with
          | some (added, dropped) => pure (.options added dropped)
          | none => pure .globalOptions
        else fail ("unknown extension ?" ++ String.ofList t) (t.length + 1)

/-- Opens a group and gives its number. -/
def openGroup (name : Option String) : Reader Nat := do
  let s ← get
  let i := s.widths.length + 1
  match name with
  | none => set { s with widths := s.widths ++ [none] }
  | some n =>
    match s.names.find? (·.1 = n) with
    | some (_, j) =>
      fail ("redefinition of group name " ++ quoted n ++ " as group " ++ toString i ++
        "; was group " ++ toString j) (n.length + 1)
    | none => set { s with widths := s.widths ++ [none], names := s.names ++ [(n, i)] }
  pure i

/-- The width of a tree whose references are to closed groups. -/
def widthOf (t : Tree) : Reader Width := do
  let s ← get
  pure (t.width fun i => (closedWidth? s i).getD .zero).capped

def closeGroup (i : Nat) (body : Tree) : Reader Unit := do
  let w ← widthOf body
  modify fun s => { s with widths := s.widths.set (i - 1) (some w) }

def expectClose (opened : Nat) : Reader Unit := do
  if ← takeIf ')' then pure () else failAt "missing ), unterminated subpattern" (opened + 1)

end Polyscan.Pattern
