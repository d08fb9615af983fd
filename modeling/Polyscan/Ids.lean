import Polyscan.Text.Quoted

/-! Identifiers for workspaces. -/
namespace Polyscan

/-- A counter for identifiers, which increases with every identifier. -/
structure IdCounter where
  count : Nat := 0
  deriving DecidableEq, Repr, Inhabited

namespace IdCounter

def next (c : IdCounter) (lead : String) : String × IdCounter :=
  (lead ++ toString (c.count + 1), ⟨c.count + 1⟩)

/-- The identifiers for a list of leads. -/
def ids (c : IdCounter) : List String → List String
  | [] => []
  | lead :: rest => (c.next lead).1 :: (c.next lead).2.ids rest

end IdCounter

/-- A lead with eight hexadecimal digits of a random number. -/
def randomId (lead : String) (random : UInt32) : String :=
  lead ++ "_" ++ String.ofList (Text.hexPadded 8 random.toNat)

/-- Whether an identifier is the lead, an underscore and eight lower-case hexadecimal digits. -/
def isRandomId (lead id : String) : Bool × Bool :=
  let tail := id.toList.drop lead.length
  (lead.toList.isPrefixOf id.toList,
    tail.length == 9 && tail.head? == some '_' &&
      (tail.drop 1).all fun c => ('0' ≤ c && c ≤ '9') || ('a' ≤ c && c ≤ 'f'))

end Polyscan
