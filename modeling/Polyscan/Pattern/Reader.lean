import Polyscan.Pattern.Alternatives
import Polyscan.Pattern.Reader.Group
import Polyscan.Pattern.Reader.Repetition
import Polyscan.Pattern.Reader.Set

/-! Reading patterns: sequences, alternatives and groups, and the pattern that a whole text is. -/
namespace Polyscan.Pattern

/-- Skips to the end of the line. -/
def skipLine : Nat → Reader Unit
  | 0 => pure ()
  | fuel + 1 => do
    match ← take with
    | none => pure ()
    | some t => if t = ['\n'] then pure () else skipLine fuel

def isVerboseSpace (t : List Char) : Bool :=
  match t with
  | [c] => c = ' ' || ('\t' ≤ c && c ≤ '\r')
  | _ => false

mutual

/-- Reads alternatives up to a closing bracket or the end. -/
def alternatives : Nat → Bool → Bool → Bool → Reader (List (List Tree))
  | 0, _, _, _ => pure [[]]
  | fuel + 1, verbose, nested, first => do
    let a ← sequence fuel verbose nested first []
    if ← takeIf '|' then
      let s ← get
      let verbose := if nested then verbose else s.flags.verbose
      pure (a :: (← alternatives fuel verbose nested false))
    else pure [a]

/-- Reads the body of a group, or the whole pattern. -/
def body : Nat → Bool → Bool → Reader Tree
  | 0, _, _ => pure .empty
  | fuel + 1, verbose, nested => do
    pure (.ofList (combine (← alternatives fuel verbose nested true)))

/-- Reads a sequence up to a bar, a closing bracket or the end; `read` has the last part first. `first`
says that nothing of the whole pattern has been read before. -/
def sequence : Nat → Bool → Bool → Bool → List Tree → Reader (List Tree)
  | 0, _, _, _, read => pure (flatten read)
  | fuel + 1, verbose, nested, first, read => do
    let here := (← get).rest.length
    match ← peek with
    | none | some ['|'] | some [')'] => pure (flatten read)
    | some t =>
      discard take
      if verbose && isVerboseSpace t then sequence fuel verbose nested first read
      else if verbose && t = ['#'] then
        skipLine here
        sequence fuel verbose nested first read
      else
        match t with
        | ['\\', c] =>
          let part ← escape c
          sequence fuel verbose nested first (part :: read)
        | ['['] =>
          let part ← readSet
          sequence fuel verbose nested first (part :: read)
        | ['*'] => sequence fuel verbose nested first (← quantify here 0 none read)
        | ['+'] => sequence fuel verbose nested first (← quantify here 1 none read)
        | ['?'] => sequence fuel verbose nested first (← quantify here 0 (some 1) read)
        | ['\x7b'] =>
          match ← readBounds with
          | none => sequence fuel verbose nested first (.char false 123 :: read)
          | some (least, most) =>
            sequence fuel verbose nested first (← quantify here least most read)
        | ['.'] => sequence fuel verbose nested first (.any :: read)
        | ['^'] => sequence fuel verbose nested first (.anchor .lineStart :: read)
        | ['$'] => sequence fuel verbose nested first (.anchor .lineEnd :: read)
        | ['('] =>
          let opened ← remaining
          match ← readOpening with
          | .comment => sequence fuel verbose nested first read
          | .globalOptions =>
            if nested || !first || !read.isEmpty then
              failAt "global flags not at the start of the expression" (opened + 1)
            else
              let s ← get
              sequence fuel s.flags.verbose nested first read
          | .part t => sequence fuel verbose nested first (t :: read)
          | .look behind negated =>
            let outer := (← get).behind
            if behind && outer.isNone then
              modify fun s => { s with behind := some (s.widths.length + 1) }
            let b ← body fuel verbose true
            if behind then modify fun s => { s with behind := outer }
            expectClose opened
            let w ← widthOf b
            sequence fuel verbose nested first
              (.look (if behind then some w else none) negated b :: read)
          | .condition i =>
            let present ← sequence fuel verbose true false []
            let absent ←
              if ← takeIf '|' then
                let absent ← sequence fuel verbose true false []
                if (← peek) = some ['|'] then
                  fail "conditional backref with more than two branches" 0
                pure absent
              else pure []
            expectClose opened
            sequence fuel verbose nested first
              (.cond i (.ofList present) (.ofList absent) :: read)
          | .atomic =>
            let b ← body fuel verbose true
            expectClose opened
            sequence fuel verbose nested first (.atomic b :: read)
          | .options added dropped =>
            let b ← body fuel ((verbose || added.verbose) && !dropped.verbose) true
            expectClose opened
            sequence fuel verbose nested first (.group none added dropped b :: read)
          | .capture name =>
            let i ← openGroup name
            let b ← body fuel verbose true
            expectClose opened
            closeGroup i b
            sequence fuel verbose nested first (.group (some i) {} {} b :: read)
        | c :: _ => sequence fuel verbose nested first (.char false c.toNat :: read)
        | [] => sequence fuel verbose nested first read

end

/-! ## Whole patterns -/

/-- A loop that templates do not allow, or a look behind of no fixed width: the first of them. -/
def lateProblem? (template : Bool) : Tree → Option String
  | .seq a b | .alt a b | .cond _ a b => (lateProblem? template a).or (lateProblem? template b)
  | .group _ _ _ b | .atomic b => lateProblem? template b
  | .look (some w) _ b =>
    if Nat.pow 2 32 ≤ w.least then some "looks too much behind"
    else if !w.isFixed then some "look-behind requires fixed-width pattern"
    else lateProblem? template b
  | .look none _ b => lateProblem? template b
  | .loop mode _ _ b =>
    if template then
      some ("internal: unsupported template operator " ++
        match mode with
        | .greedy => "MAX_REPEAT"
        | .lazy => "MIN_REPEAT"
        | .possessive => "POSSESSIVE_REPEAT")
    else lateProblem? template b
  | _ => none

/-- Reads a pattern with the given options. -/
def compile (flags : Flags) (text : String) : Except Problem Pattern :=
  let chars := text.toList
  let total := chars.length
  let start : ReadState := { rest := [], flags }
  let action : Reader Tree := do
    moveTo chars
    body (4 * total + 8) flags.verbose false
  match action.run start with
  | .error (.at message remaining) => .error (.malformed message (some (total - remaining)))
  | .error .countTooLarge => .error .countTooLarge
  | .ok (tree, s) =>
    if s.flags.ascii && s.flags.unicode then .error .bothAlphabets
    else if !s.rest.isEmpty then
      .error (.malformed "unbalanced parenthesis" (some (total - s.rest.length)))
    else
      match s.asked.find? fun a => s.widths.length < a.1 with
      | some (i, remaining) =>
        .error (.malformed ("invalid group reference " ++ toString i) (some (total - remaining)))
      | none =>
        match lateProblem? s.flags.template tree with
        | some message => .error (.malformed message none)
        | none => .ok ⟨text, s.flags, s.widths.length, tree⟩

/-- The options of all rules: line anchors hold at every line. -/
def ruleFlags : Flags := { multiLine := true }

end Polyscan.Pattern
