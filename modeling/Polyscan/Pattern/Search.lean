import Polyscan.Pattern.Matcher

/-!
All matches of a pattern in a text, from left to right without overlap. An empty match may follow
directly on another match, but not on an empty one.
-/
namespace Polyscan.Pattern

/-- A match: where it begins and ends, and its groups. -/
structure Match where
  first : Nat
  last : Nat
  marks : Marks
  deriving DecidableEq, Repr

namespace Match

/-- Where a group took part; group zero is the whole match. -/
def span? (m : Match) (group : Nat) : Option (Nat × Nat) :=
  if group = 0 then some (m.first, m.last) else Pattern.span? m.marks group

end Match

/-- The set at the very front of a pattern, also inside groups, unless it is compared by lower case. -/
def leadingSet? (flags : Flags) : Tree → Option (Bool × List Member)
  | .seq (.set negated members) _ =>
    if flags.ignoreCase && members.any (Member.isCased flags) then none else some (negated, members)
  | .seq (.group _ add drop body) _ => leadingSet? (flags.inside add drop) body
  | _ => none

/-- Whether a search stops at a place: a set at the very front of the pattern, read with the options of
the whole pattern, must take the character there. -/
def mayBegin (r : Pattern) (s : Subject) (p : Nat) : Bool :=
  match leadingSet? r.flags r.tree, s[p]? with
  | some (negated, members), some c => setMatches { r.flags with ignoreCase := false } negated members c
  | _, _ => true

/-- The match of a pattern that begins at a place; `moving` refuses an empty one. -/
def matchAt (r : Pattern) (s : Subject) (moving : Bool) (p : Nat) : Option Match :=
  if !r.mayBegin s p then none
  else
    let accept : Next := fun q marks => if moving && q == p then none else some (q, marks)
    match run s r.tree r.flags accept p (List.replicate (2 * r.groups) none) with
    | some (q, marks) => some ⟨p, q, marks⟩
    | none => none

/-- The first match that begins at a place or at one of the next `count` places. -/
def findFrom (r : Pattern) (s : Subject) (moving : Bool) (p : Nat) : Nat → Option Match
  | 0 => matchAt r s moving p
  | count + 1 =>
    match matchAt r s moving p with
    | some m => some m
    | none => findFrom r s false (p + 1) count

/-- All matches from a place on. Every second one moves on, so twice the length of the text is enough. -/
def matchesFrom (r : Pattern) (s : Subject) : Nat → Bool → Nat → List Match
  | 0, _, _ => []
  | fuel + 1, moving, p =>
    match findFrom r s moving p (s.size - p) with
    | none => []
    | some m => m :: matchesFrom r s fuel (m.last == m.first) m.last

/-- All matches in a text. -/
def matchesIn (r : Pattern) (s : Subject) : List Match := matchesFrom r s (2 * s.size + 2) false 0

end Polyscan.Pattern
