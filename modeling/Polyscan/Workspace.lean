import Polyscan.Host.Basic
import Polyscan.Json.Display

/-!
Workspaces: the files and folders that are analyzed, the files they come to, and the folder that holds
them all.
-/
namespace Polyscan

/-- The key tells workspaces of equal content apart. -/
structure Workspace where
  key : Nat
  id : String
  inputs : List String
  deriving DecidableEq, Repr, Inhabited

/-- The files among the entries of a folder, under the path of the folder. Linked folders are neither entered
nor listed; links to anything else are listed. A folder whose path the system does not take, since it is too
long, is not entered either. -/
def Node.filesAmong (isFolder : String → Bool) (path : String) : List (String × Node) → List String
  | [] => []
  | (name, .folder entries) :: rest =>
    (if Host.pathLimit ≤ (Path.join path name).utf8ByteSize then []
      else Node.filesAmong isFolder (Path.join path name) entries) ++ Node.filesAmong isFolder path rest
  | (name, .link _) :: rest =>
    (if isFolder (Path.join path name) then [] else [Path.join path name]) ++
      Node.filesAmong isFolder path rest
  | (name, .file _) :: rest => Path.join path name :: Node.filesAmong isFolder path rest

/-- Adds a text to an ascending list that holds each text once. -/
def insertAscending (s : String) : List String → List String
  | [] => [s]
  | t :: rest => if s < t then s :: t :: rest else if s = t then t :: rest else t :: insertAscending s rest

/-- The texts in ascending order of their code points, each once. -/
def ascending (texts : List String) : List String := texts.foldl (fun l s => insertAscending s l) []

namespace Workspace

/-- The files of one input: those beneath it if it is a folder, itself if it is a file. -/
def filesOf (h : Host) (input : String) : List String :=
  match h.real? input with
  | none => []
  | some here =>
    match h.files.at? here with
    | some (.folder entries) => Node.filesAmong h.isFolder input entries
    | some (.file _) => [input]
    | _ => []

/-- All files of the given inputs, in ascending order. -/
def expand (h : Host) (inputs : List String) : List String := ascending (inputs.flatMap (filesOf h))

/-- The folder of an input: itself, or the one it is in. -/
def folderOf (h : Host) (input : String) : String := if h.isFolder input then input else Path.parent input

/-- The deepest folder that holds all inputs; none for an empty workspace. -/
def root (h : Host) (inputs : List String) : Except Fault (Option String) :=
  if inputs.isEmpty then .ok none
  else
    match Path.common? (inputs.map (folderOf h)) with
    | some folder => .ok (some folder)
    | none => .error (.raised .value "Can't mix absolute and relative paths")

/-- The workspace as it is shown to developers. -/
def shown (w : Workspace) : String :=
  "Workspace(id=" ++ Text.quoted w.id ++ ", files_and_folders=" ++ Json.shownStrings w.inputs ++ ")"

/-- The absolute form of a path that must exist. -/
def existing (h : Host) (p : String) : Except Fault String := do
  let absolute ← h.resolve p
  if h.exists? absolute then pure absolute else throw (.invalidInput (.missingPath absolute))

/-- The absolute forms of paths in order of first occurrence; `seen` holds the ones already found. -/
def absoluteInputs (h : Host) (seen : List String) : List String → Except Fault (List String)
  | [] => .ok seen
  | p :: rest => do
    let absolute ← existing h p
    absoluteInputs h (if absolute ∈ seen then seen else seen ++ [absolute]) rest

end Workspace

end Polyscan
