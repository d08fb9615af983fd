/-!
Patterns as trees. Characters are code points, so that a pattern may name one that no text can hold.
-/
namespace Polyscan

namespace Pattern

/-- Options that change how a pattern, or a part of it, is read and matched. -/
structure Flags where
  ignoreCase : Bool := false
  multiLine : Bool := false
  dotAll : Bool := false
  verbose : Bool := false
  ascii : Bool := false
  unicode : Bool := false
  template : Bool := false
  deriving DecidableEq, Repr, Inhabited

namespace Flags

def none : Flags := {}

def union (f g : Flags) : Flags where
  ignoreCase := f.ignoreCase || g.ignoreCase
  multiLine := f.multiLine || g.multiLine
  dotAll := f.dotAll || g.dotAll
  verbose := f.verbose || g.verbose
  ascii := f.ascii || g.ascii
  unicode := f.unicode || g.unicode
  template := f.template || g.template

def meets (f g : Flags) : Bool :=
  (f.ignoreCase && g.ignoreCase) || (f.multiLine && g.multiLine) || (f.dotAll && g.dotAll) ||
    (f.verbose && g.verbose) || (f.ascii && g.ascii) || (f.unicode && g.unicode) ||
    (f.template && g.template)

/-- The options inside a group that adds some and drops some. Naming one of the two alphabets replaces
the other. -/
def inside (f add drop : Flags) : Flags where
  ignoreCase := (f.ignoreCase || add.ignoreCase) && !drop.ignoreCase
  multiLine := (f.multiLine || add.multiLine) && !drop.multiLine
  dotAll := (f.dotAll || add.dotAll) && !drop.dotAll
  verbose := (f.verbose || add.verbose) && !drop.verbose
  ascii := if add.ascii || add.unicode then add.ascii else f.ascii
  unicode := if add.ascii || add.unicode then add.unicode else f.unicode
  template := f.template || add.template

end Flags

/-- Kinds of characters that patterns name by a letter. -/
inductive CharKind where
  | digit
  | space
  | word
  deriving DecidableEq, Repr

/-- What a set of characters lists. -/
inductive Member where
  | one (c : Nat)
  | range (first last : Nat)
  | kind (negated : Bool) (k : CharKind)
  deriving DecidableEq, Repr

/-- Conditions on a place in the text. -/
inductive Anchor where
  | lineStart
  | lineEnd
  | textStart
  | textEnd
  | wordEdge
  | notWordEdge
  deriving DecidableEq, Repr

/-- How a repetition chooses its count: as many as possible, as few as possible, or as many as possible
without giving any back. -/
inductive LoopMode where
  | greedy
  | lazy
  | possessive
  deriving DecidableEq, Repr

/-- The least and greatest length of a match; `none` stands for a length beyond all bounds. -/
structure Width where
  least : Nat
  most : Option Nat
  deriving DecidableEq, Repr, Inhabited

/-- The bound of widths: longer ones are equal to it. -/
def widthLimit : Nat := Nat.pow 2 64

namespace Width

def zero : Width := ⟨0, some 0⟩

def one : Width := ⟨1, some 1⟩

def add (v w : Width) : Width := ⟨v.least + w.least, do pure ((← v.most) + (← w.most))⟩

def either (v w : Width) : Width := ⟨min v.least w.least, do pure (max (← v.most) (← w.most))⟩

def times (w : Width) (least : Nat) (most : Option Nat) : Width where
  least := w.least * least
  most :=
    match most with
    | some 0 => some 0
    | some n => w.most.map (· * n)
    | none => if w.most = some 0 then some 0 else none

/-- The width with all bounds cut at the limit. -/
def capped (w : Width) : Width where
  least := min w.least widthLimit
  most := w.most.bind fun n => if n < widthLimit then some n else none

/-- All matches have one length. -/
def isFixed (w : Width) : Bool :=
  match w.most with
  | some n => w.least = n
  | none => w.least = widthLimit

end Width

/-- A pattern. Groups with an index record what they match; others only change the options. A look ahead
has no width; one behind has that of its body. -/
inductive Tree where
  | empty
  | seq (first second : Tree)
  | alt (first second : Tree)
  | char (negated : Bool) (c : Nat)
  | any
  | set (negated : Bool) (members : List Member)
  | anchor (a : Anchor)
  | group (index : Option Nat) (add drop : Flags) (body : Tree)
  | atomic (body : Tree)
  | look (behind : Option Width) (negated : Bool) (body : Tree)
  | backref (index : Nat)
  | cond (index : Nat) (present absent : Tree)
  | loop (mode : LoopMode) (least : Nat) (most : Option Nat) (body : Tree)
  deriving DecidableEq, Repr, Inhabited

namespace Tree

/-- The sequence of the given parts. -/
def ofList : List Tree → Tree
  | [] => empty
  | t :: rest => seq t (ofList rest)

/-- The parts of a sequence. -/
def toList : Tree → List Tree
  | empty => []
  | seq t rest => t :: toList rest
  | t => [t]

/-- The choice between the given alternatives, of which there is at least one. -/
def choice : List Tree → Tree
  | [] => empty
  | [t] => t
  | t :: rest => alt t (choice rest)

end Tree

/-- The width of a pattern; `groups` gives those of the groups that it refers back to. -/
def Tree.width (groups : Nat → Width) : Tree → Width
  | empty | anchor _ | look .. => .zero
  | seq a b => (a.width groups).add (b.width groups)
  | alt a b => (a.width groups).either (b.width groups)
  | char .. | any | set .. => .one
  | group _ _ _ body | atomic body => (body.width groups).capped
  | backref i => groups i
  | cond _ present absent => (present.width groups).capped.either (absent.width groups).capped
  | loop _ least most body => (body.width groups).capped.times least most

end Pattern

/-- A compiled pattern. -/
structure Pattern where
  text : String
  flags : Pattern.Flags
  groups : Nat
  tree : Pattern.Tree
  deriving DecidableEq, Repr, Inhabited

end Polyscan
