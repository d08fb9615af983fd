import Polyscan.Fault
import Polyscan.Host.FileTree
import Polyscan.Path

/-!
The machine of the analyzer: a file tree, a working directory and home folders. A question about a path that
cannot be resolved is answered with no.
-/
namespace Polyscan

structure Host where
  files : Node
  /-- The names of the folders from the root down to the working directory. -/
  cwd : List String
  home : String
  users : List (String × String)

namespace Host

/-- The path of the working directory. -/
def cwdPath (h : Host) : String := "/" ++ Text.join "/" h.cwd

/-- The absolute form of a path: tilde replaced, put after the working directory if relative, and
normalized. -/
def absolute (h : Host) (p : String) : String :=
  Path.normalize (Path.join h.cwdPath (Path.expandHome h.home h.users p))

/-- The failure of a path with a null character. -/
def nullByte : Fault := .raised .value "embedded null byte"

/-- The absolute form of a path. The lookup of the home folder fails if the user after `~` has a null
character in its name. -/
def resolve (h : Host) (p : String) : Except Fault String :=
  if (Path.homeOwner? p).any fun name => '\x00' ∈ name.toList then .error nullByte
  else .ok (h.absolute p)

/-- The bytes that a path may have. -/
def pathLimit : Nat := 4096

/-- Resolves a path. -/
def locate (h : Host) (p : String) (follow : Bool) : Except SystemError Place :=
  if p.isEmpty then .error .notFound
  else if pathLimit ≤ p.utf8ByteSize then .error .nameTooLong
  else h.files.walk follow linkLimit (if Path.isAbsolute p then [] else h.cwd) (Path.pieces p)

/-- The real place of what a path names, with all links followed. -/
def real? (h : Host) (p : String) : Option (List String) :=
  if '\x00' ∈ p.toList then none
  else
    match h.locate p true with
    | .ok (.found names) => some names
    | _ => none

def node? (h : Host) (p : String) : Option Node := h.real? p >>= h.files.at?

def exists? (h : Host) (p : String) : Bool := (h.node? p).isSome

def isFile (h : Host) (p : String) : Bool := (h.node? p).any Node.isFile

def isFolder (h : Host) (p : String) : Bool := (h.node? p).any Node.isFolder

/-- A refusal as it is raised for a path. -/
def refusal (e : SystemError) (p : String) : Fault :=
  let kind : FaultKind :=
    match e with
    | .notFound => .fileNotFound
    | .notAFolder => .notADirectory
    | .isAFolder => .isADirectory
    | _ => .system
  .raised kind ("[Errno " ++ toString e.number ++ "] " ++ e.reason ++ ": " ++ Text.quoted p)

/-- The content of the file that a path names. -/
def readBytes (h : Host) (p : String) : Except Fault Text.Bytes :=
  if '\x00' ∈ p.toList then .error nullByte
  else
    match h.locate p true with
    | .error e => .error (refusal e p)
    | .ok (.free _ _) => .error (refusal .notFound p)
    | .ok (.found names) =>
      match h.files.at? names with
      | some (.file (.bytes data)) => .ok data
      | some (.file (.module _)) => .ok []
      | some (.folder _) => .error (refusal .isAFolder p)
      | _ => .error (refusal .notFound p)

/-- A failure to read text: the file could not be read, or its bytes spell none. -/
def readText (h : Host) (p : String) : Except Fault (List Char) := do
  let data ← h.readBytes p
  match Text.decode data with
  | .ok text => pure text
  | .error e => .error (.raised .decode e.text)

/-- Writes bytes at the end of a file, which is made if it does not exist. -/
def append (h : Host) (p : String) (data : Text.Bytes) : Except Fault Host :=
  if '\x00' ∈ p.toList then .error nullByte
  else
    match h.locate p true with
    | .error e => .error (refusal e p)
    | .ok (.free folder name) =>
      .ok { h with files := h.files.setAt (some (.file (.bytes data))) (folder ++ [name]) }
    | .ok (.found names) =>
      match h.files.at? names with
      | some (.file (.bytes old)) =>
        .ok { h with files := h.files.setAt (some (.file (.bytes (old ++ data)))) names }
      | some (.file (.module _)) =>
        .ok { h with files := h.files.setAt (some (.file (.bytes data))) names }
      | _ => .error (refusal .isAFolder p)

end Host

end Polyscan
