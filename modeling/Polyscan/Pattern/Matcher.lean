import Polyscan.Pattern.Charset

/-!
Matching by trying alternatives in order. A pattern is run at a place with what is to follow it; the
first way in which both succeed is the match.
-/
namespace Polyscan.Pattern

/-- Where groups began and ended, two entries for each; absent ones have not taken part. -/
abbrev Marks := List (Option Nat)

/-- The end of a match, with the groups of its way there. -/
abbrev Outcome := Option (Nat × Marks)

/-- What is to follow. -/
abbrev Next := Nat → Marks → Outcome

def mark (marks : Marks) (i : Nat) : Option Nat := (marks[i]?).getD none

/-- The place where a group began and the one where it ended, if it has ended since it began. -/
def span? (marks : Marks) (group : Nat) : Option (Nat × Nat) :=
  match mark marks (2 * group - 2), mark marks (2 * group - 1) with
  | some first, some last => if first ≤ last then some (first, last) else none
  | _, _ => none

/-- The text being searched. -/
abbrev Subject := Array Nat

def isWordAt (flags : Flags) (s : Subject) (p : Nat) : Bool :=
  match s[p]? with
  | some c => CharKind.word.holds flags c
  | none => false

def isWordBefore (flags : Flags) (s : Subject) (p : Nat) : Bool :=
  match p with
  | 0 => false
  | q + 1 => isWordAt flags s q

def isNewlineAt (s : Subject) (p : Nat) : Bool := s[p]? == some newline

def isNewlineBefore (s : Subject) (p : Nat) : Bool :=
  match p with
  | 0 => false
  | q + 1 => isNewlineAt s q

/-- Whether a place satisfies a condition. In an empty text no place is an edge of a word, nor not one. -/
def anchorHolds (flags : Flags) (s : Subject) (a : Anchor) (p : Nat) : Bool :=
  match a with
  | .lineStart => p == 0 || (flags.multiLine && isNewlineBefore s p)
  | .lineEnd =>
    p == s.size || (isNewlineAt s p && (flags.multiLine || p + 1 == s.size))
  | .textStart => p == 0
  | .textEnd => p == s.size
  | .wordEdge => s.size != 0 && isWordBefore flags s p != isWordAt flags s p
  | .notWordEdge => s.size != 0 && isWordBefore flags s p == isWordAt flags s p

/-- Takes one character that satisfies a condition. -/
def takeOne (s : Subject) (holds : Nat → Bool) (next : Next) (p : Nat) (marks : Marks) : Outcome :=
  match s[p]? with
  | some c => if holds c then next (p + 1) marks else none
  | none => none

/-- Whether the text from `i` on reads as that from `p` on, for `n` characters. -/
def repeats (flags : Flags) (s : Subject) (i p : Nat) : Nat → Bool
  | 0 => true
  | n + 1 =>
    match s[i]?, s[p]? with
    | some a, some b =>
      (if flags.ignoreCase then fold flags a == fold flags b else a == b) &&
        repeats flags s (i + 1) (p + 1) n
    | _, _ => false

/-- Runs a step a given number of times. -/
def required (step : Next → Next) (next : Next) : Nat → Next
  | 0 => next
  | n + 1 => step fun p marks => required step next n p marks

/-- Whether one more round is allowed. -/
def mayGoOn : Option Nat → Bool
  | some 0 => false
  | _ => true

/-- As many rounds as possible, at most `left`; a round may not start where the last one started. -/
def greedy (step : Next → Next) (next : Next) : Nat → Option Nat → Option Nat → Next
  | 0, _, _, p, marks => next p marks
  | fuel + 1, left, last, p, marks =>
    if mayGoOn left && last != some p then
      match step (greedy step next fuel (left.map (· - 1)) (some p)) p marks with
      | some r => some r
      | none => next p marks
    else next p marks

/-- As few rounds as possible. -/
def lazily (step : Next → Next) (next : Next) : Nat → Option Nat → Option Nat → Next
  | 0, _, _, p, marks => next p marks
  | fuel + 1, left, last, p, marks =>
    match next p marks with
    | some r => some r
    | none =>
      if mayGoOn left && last != some p then
        step (lazily step next fuel (left.map (· - 1)) (some p)) p marks
      else none

/-- Ends a run that stands alone. -/
def done : Next := fun p marks => some (p, marks)

/-- As many rounds as possible, each of them settled before the next. -/
def settled (step : Next → Next) : Nat → Option Nat → Nat → Marks → Nat × Marks
  | 0, _, p, marks => (p, marks)
  | fuel + 1, left, p, marks =>
    if mayGoOn left then
      match step done p marks with
      | some (q, marks') =>
        if q = p then (q, marks') else settled step fuel (left.map (· - 1)) q marks'
      | none => (p, marks)
    else (p, marks)

/-- A given number of rounds, each of them settled before the next. -/
def settledRequired (step : Next → Next) : Nat → Nat → Marks → Outcome
  | 0, p, marks => some (p, marks)
  | n + 1, p, marks =>
    match step done p marks with
    | some (q, marks') => settledRequired step n q marks'
    | none => none

/-- Runs a pattern at a place, with what is to follow. -/
def run (s : Subject) : Tree → Flags → Next → Next
  | .empty, _, next => next
  | .seq a b, flags, next => run s a flags (run s b flags next)
  | .alt a b, flags, next => fun p marks =>
    match run s a flags next p marks with
    | some r => some r
    | none => run s b flags next p marks
  | .char negated c, flags, next => takeOne s (fun x => charMatches flags c x != negated) next
  | .any, flags, next => takeOne s (fun x => flags.dotAll || x != newline) next
  | .set negated members, flags, next => takeOne s (setMatches flags negated members) next
  | .anchor a, flags, next => fun p marks => if anchorHolds flags s a p then next p marks else none
  | .group none add drop body, flags, next => run s body (flags.inside add drop) next
  | .group (some i) add drop body, flags, next => fun p marks =>
    run s body (flags.inside add drop)
      (fun q marks' => next q (marks'.set (2 * i - 1) (some q))) p (marks.set (2 * i - 2) (some p))
  | .atomic body, flags, next => fun p marks =>
    match run s body flags done p marks with
    | some (q, marks') => next q marks'
    | none => none
  | .look behind negated body, flags, next => fun p marks =>
    let back := (behind.map Width.least).getD 0
    let found := if back ≤ p then run s body flags done (p - back) marks else none
    match found, negated with
    | some (_, marks'), false => next p marks'
    | none, true => next p marks
    | _, _ => none
  | .backref i, flags, next => fun p marks =>
    match span? marks i with
    | some (first, last) =>
      if repeats flags s first p (last - first) then next (p + (last - first)) marks else none
    | none => none
  | .cond i present absent, flags, next => fun p marks =>
    if (span? marks i).isSome then run s present flags next p marks
    else run s absent flags next p marks
  | .loop .greedy least most body, flags, next =>
    required (run s body flags)
      (greedy (run s body flags) next (s.size + 2) (most.map (· - least)) none) least
  | .loop .lazy least most body, flags, next =>
    required (run s body flags)
      (lazily (run s body flags) next (s.size + 2) (most.map (· - least)) none) least
  | .loop .possessive least most body, flags, next => fun p marks =>
    match settledRequired (run s body flags) least p marks with
    | some (q, marks') =>
      let (q, marks') := settled (run s body flags) (s.size + 2) (most.map (· - least)) q marks'
      next q marks'
    | none => none

end Polyscan.Pattern
