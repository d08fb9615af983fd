import Polyscan.Path
import Polyscan.Text.Utf8

/-! Trees of files, folders and symbolic links, and the resolution of paths in them. -/
namespace Polyscan

/-- The effect of loading a plugin module. -/
inductive PluginModule where
  /-- Offers the bundled plugin. -/
  | bundled
  /-- Offers no factory, or one that cannot be called. -/
  | withoutFactory
  /-- Fails while it is loaded. -/
  | failsToLoad (problem : String)
  /-- Fails while it makes its plugin. -/
  | failsToMake (problem : String)
  deriving DecidableEq, Repr

inductive FileContent where
  | bytes (data : Text.Bytes)
  | module (kind : PluginModule)
  deriving DecidableEq, Repr

/-- A file, a folder with its entries, or a link to a path. -/
inductive Node where
  | file (content : FileContent)
  | folder (entries : List (String × Node))
  | link (target : String)
  deriving Inhabited

namespace Node

def isFolder : Node → Bool
  | folder _ => true
  | _ => false

def isFile : Node → Bool
  | file _ => true
  | _ => false

def findEntry (name : String) : List (String × Node) → Option Node
  | [] => none
  | (a, n) :: rest => if a = name then some n else findEntry name rest

def entry? (name : String) : Node → Option Node
  | folder entries => findEntry name entries
  | _ => none

/-- The node at a place given by names from the root, without following links. -/
def at? (root : Node) : List String → Option Node
  | [] => some root
  | name :: rest =>
    match root.entry? name with
    | some n => n.at? rest
    | none => none

def putEntry (name : String) (new : Option Node) : List (String × Node) → List (String × Node)
  | [] =>
    match new with
    | some n => [(name, n)]
    | none => []
  | (a, old) :: rest =>
    if a = name then
      match new with
      | some n => (a, n) :: rest
      | none => rest
    else (a, old) :: putEntry name new rest

/-- Puts a node at a place, or removes the one there. The folders on the way must exist. -/
def setAt (new : Option Node) : List String → Node → Node
  | [], old => new.getD old
  | [name], folder entries => folder (putEntry name new entries)
  | name :: rest, folder entries =>
    match findEntry name entries with
    | some n => folder (putEntry name (some (setAt new rest n)) entries)
    | none => folder entries
  | _, old => old

end Node

/-- Why the system refuses a path. -/
inductive SystemError where
  | notFound
  | notAFolder
  | isAFolder
  | nameTooLong
  | tooManyLinks
  deriving DecidableEq, Repr

namespace SystemError

def number : SystemError → Nat
  | notFound => 2
  | notAFolder => 20
  | isAFolder => 21
  | nameTooLong => 36
  | tooManyLinks => 40

def reason : SystemError → String
  | notFound => "No such file or directory"
  | notAFolder => "Not a directory"
  | isAFolder => "Is a directory"
  | nameTooLong => "File name too long"
  | tooManyLinks => "Too many levels of symbolic links"

end SystemError

/-- The result of resolving a path: a node, or a free name in an existing folder. -/
inductive Place where
  | found (names : List String)
  | free (folder : List String) (name : String)
  deriving DecidableEq, Repr

/-- The result of resolving a path up to its first link: the end, an error, or the folder and the pieces with
which the resolution continues behind the link. -/
inductive Descent where
  | done (place : Place)
  | refused (error : SystemError)
  | redirected (folder : List String) (todo : List String)

/-- The bytes that a name may have. -/
def nameLimit : Nat := 255

/-- Resolves the pieces of a path from a place in the tree up to the end or the first link. A double dot leads
to the real parent. A link at the end is followed only if `follow` holds. -/
def Node.descend (root : Node) (follow : Bool) (here : List String) : List String → Descent
  | [] => .done (.found here)
  | piece :: rest =>
    match root.at? here with
    | some (.folder entries) =>
      if piece = "" ∨ piece = "." then root.descend follow here rest
      else if piece = ".." then root.descend follow here.dropLast rest
      else if nameLimit < piece.utf8ByteSize then .refused .nameTooLong
      else
        match Node.findEntry piece entries with
        | none => if rest.isEmpty then .done (.free here piece) else .refused .notFound
        | some (.link target) =>
          if rest.isEmpty && !follow then .done (.found (here ++ [piece]))
          else if target.isEmpty then .refused .notFound
          else
            .redirected (if Path.isAbsolute target then [] else here) (Path.pieces target ++ rest)
        | some _ => root.descend follow (here ++ [piece]) rest
    | _ => .refused .notAFolder

/-- Resolves the pieces of a path through at most `links` links. -/
def Node.walk (root : Node) (follow : Bool) : Nat → List String → List String → Except SystemError Place
  | 0, here, todo =>
    match root.descend follow here todo with
    | .done place => .ok place
    | .refused e => .error e
    | .redirected _ _ => .error .tooManyLinks
  | links + 1, here, todo =>
    match root.descend follow here todo with
    | .done place => .ok place
    | .refused e => .error e
    | .redirected here todo => root.walk follow links here todo

/-- The links that one path may lead through. -/
def linkLimit : Nat := 40

end Polyscan
