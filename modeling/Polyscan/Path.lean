import Polyscan.Text.Basic

/-!
Paths as text: components between slashes, the normal form without dots and doubled slashes, and what it
means to lie beneath a folder. Nothing here looks at files.
-/
namespace Polyscan.Path

def isAbsolute (p : String) : Bool := Text.startsWith p "/"

/-- The pieces between slashes, empty ones included. -/
def pieces (p : String) : List String := Text.split '/' p

/-- The pieces that name something: neither empty nor a dot. -/
def components (p : String) : List String := (pieces p).filter fun c => c ≠ "" ∧ c ≠ "."

/-- The slashes in front: exactly two are kept, any other number counts as one. -/
def rootSlashes (p : String) : String :=
  match p.toList with
  | '/' :: '/' :: '/' :: _ => "/"
  | '/' :: '/' :: _ => "//"
  | '/' :: _ => "/"
  | _ => ""

/-- Adds a component to a path that is read from left to right, last component first. A double dot takes
back the component before it; at the root of an absolute path there is none to take back. -/
def push (absolute : Bool) (read : List String) (c : String) : List String :=
  if c = ".." then
    match read with
    | [] => if absolute then [] else [c]
    | last :: before => if last = ".." then c :: read else before
  else c :: read

/-- The normal form: no empty component, no dot, and no double dot except in front of a relative path. -/
def normalize (p : String) : String :=
  let parts := ((components p).foldl (push (isAbsolute p)) []).reverse
  let text := rootSlashes p ++ Text.join "/" parts
  if text.isEmpty then "." else text

/-- Writes a path after a folder; an absolute path stands for itself. -/
def join (folder p : String) : String :=
  if isAbsolute p then p
  else if folder.isEmpty || Text.endsWith folder "/" then folder ++ p
  else folder ++ "/" ++ p

def dropSlashes (p : String) : String := String.ofList (Text.dropEnd (· = '/') p.toList)

/-- The part in front of the last slash; a root keeps its slashes. -/
def parent (p : String) : String :=
  let head := Text.dropEnd (· ≠ '/') p.toList
  if head.all (· = '/') then String.ofList head else String.ofList (Text.dropEnd (· = '/') head)

/-- The part after the last slash. -/
def baseName (p : String) : String := String.ofList (p.toList.reverse.takeWhile (· ≠ '/')).reverse

/-- The user after `~` at the start of a path; the empty name stands for the current user. -/
def homeOwner? (p : String) : Option String :=
  match p.toList with
  | '~' :: rest => some (String.ofList (rest.takeWhile (· ≠ '/')))
  | _ => none

/-- Replaces a tilde in front by a home folder: the user's own, or that of a named user. An unknown
user's path is left alone. -/
def expandHome (home : String) (users : List (String × String)) (p : String) : String :=
  match p.toList with
  | '~' :: rest =>
    let name := String.ofList (rest.takeWhile (· ≠ '/'))
    let tail := rest.dropWhile (· ≠ '/')
    let folder? := if name.isEmpty then some home else (users.find? (·.1 = name)).map (·.2)
    match folder? with
    | none => p
    | some folder =>
      let text := dropSlashes folder ++ String.ofList tail
      if text.isEmpty then "/" else text
  | _ => p

/-- Whether a path is a folder's path or begins with it and a slash. -/
def isWithin (p folder : String) : Bool := p = folder || Text.startsWith p (dropSlashes folder ++ "/")

/-- The longest list that both lists begin with. -/
def commonPrefix : List String → List String → List String
  | a :: as, b :: bs => if a = b then a :: commonPrefix as bs else []
  | _, _ => []

/-- The deepest folder that all paths lie in, by their components; none if some are absolute and some
relative. -/
def common? : List String → Option String
  | [] => none
  | p :: rest =>
    if rest.any fun q => isAbsolute q ≠ isAbsolute p then none
    else
      let shared := rest.foldl (fun shared q => commonPrefix shared (components q)) (components p)
      some ((if isAbsolute p then "/" else "") ++ Text.join "/" shared)

/-- A path without empty components and dots, as it is shown for a file that is opened by name. -/
def tidy (p : String) : String :=
  let text := rootSlashes p ++ Text.join "/" (components p)
  if text.isEmpty then "." else text

end Polyscan.Path
