import Polyscan.Pattern.Syntax

/-!
The simplest form of alternatives: what all of them begin with stands before them, and alternatives of one
character each are a set.
-/
namespace Polyscan.Pattern

/-- The parts of a sequence, with plain groups dissolved; `read` has the last part first. -/
def flatten (read : List Tree) : List Tree :=
  read.reverse.flatMap fun t =>
    match t with
    | .group none add drop body => if add = {} ∧ drop = {} then body.toList else [t]
    | _ => [t]

/-- Whether a part may be moved out of alternatives that all begin with it. -/
def isShared : Tree → Bool
  | .char .. | .any | .set .. | .anchor _ | .backref _ => true
  | _ => false

/-- The parts that all alternatives begin with, and what is left of each. -/
def factor : List (List Tree) → Nat → List Tree × List (List Tree)
  | alternatives, 0 => ([], alternatives)
  | alternatives, fuel + 1 =>
    match alternatives with
    | (t :: _) :: rest =>
      if isShared t && rest.all (fun a => a.head? = some t) then
        let (shared, left) := factor (alternatives.map List.tail) fuel
        (t :: shared, left)
      else ([], alternatives)
    | _ => ([], alternatives)

/-- The members of the set that an alternative is, if it is one. -/
def membersOf? : List Tree → Option (List Member)
  | [.char false c] => some [.one c]
  | [.set false ms] => some ms
  | _ => none

/-- The parts of a choice: the common parts, followed by a set if only sets are left, and by a choice
otherwise. -/
def combine (alternatives : List (List Tree)) : List Tree :=
  match alternatives with
  | [a] => a
  | _ =>
    let (shared, left) := factor alternatives ((alternatives.headD []).length + 1)
    match left.mapM membersOf? with
    | some members => shared ++ [.set false members.flatten.eraseDups]
    | none => shared ++ [.choice (left.map Tree.ofList)]

end Polyscan.Pattern
