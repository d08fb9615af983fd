import Polyscan.Pattern.Reader.Escape

/-! Sets of characters in square brackets. -/
namespace Polyscan.Pattern

/-- One element of a set from its token. -/
def setElement (t : List Char) : Reader Member :=
  match t with
  | ['\\', c] => setEscape c
  | [c] => pure (.one c.toNat)
  | _ => pure (.one 0)

/-- Reads the members of a set up to its bracket; `opened` is what remained after the opening one. -/
def setMembers (opened : Nat) : Nat → List Member → Reader (List Member)
  | 0, read => pure read
  | fuel + 1, read => do
    match ← take with
    | none => failAt "unterminated character set" (opened + 1)
    | some t =>
      if t = [']'] && !read.isEmpty then pure read
      else
        let first ← setElement t
        if ← takeIf '-' then
          match ← take with
          | none => failAt "unterminated character set" (opened + 1)
          | some u =>
            if u = [']'] then pure (read ++ [first, .one 45])
            else
              let last ← setElement u
              let refuse := fail ("bad character range " ++ String.ofList t ++ "-" ++ String.ofList u)
                (t.length + 1 + u.length)
              match first, last with
              | .one a, .one b =>
                if b < a then refuse else setMembers opened fuel (read ++ [.range a b])
              | _, _ => refuse
        else setMembers opened fuel (read ++ [first])

/-- Reads a set after its opening bracket. A set of one character is that character. -/
def readSet : Reader Tree := do
  let opened ← remaining
  let negated ← takeIf '^'
  let members := (← setMembers opened (opened + 1) []).eraseDups
  match members with
  | [.one c] => pure (.char negated c)
  | _ => pure (.set negated members)

end Polyscan.Pattern
