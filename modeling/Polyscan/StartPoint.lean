import Polyscan.Workspace
import Polyscan.Schema.Number

/-!
Start points of a run. A start point is a file or folder, or a file with a number sign and a list of
method names separated by semicolons; white space and semicolons at its end do not count.
-/
namespace Polyscan

/-- A file or folder to start from, and the method in it if one is named. -/
structure PathPoint where
  file : String
  method : Option String := none
  deriving DecidableEq, Repr, Inhabited

/-- The point as data; `all` says whether an absent method is written. -/
def PathPoint.toJson (all : Bool) (p : PathPoint) : Json :=
  .obj (("file", .str p.file) ::
    match p.method with
    | some m => [("method_name", .str m)]
    | none => if all then [("method_name", .null)] else [])

namespace Schema

def pathPoint : Json → Checked PathPoint :=
  object "PathPoint" fun fields =>
    PathPoint.mk <$> required fields "file" string
      <*> withDefault fields "method_name" none (nullable string)

end Schema

namespace StartPoint

def isNameChar (c : Char) : Bool :=
  Text.isAsciiLetter c.toNat || Text.isAsciiDigit c.toNat || c = '_'

/-- A letter, then letters, digits and low lines; one newline at the end is let pass. -/
def isMethodName (name : String) : Bool :=
  match name.toList with
  | [] => false
  | c :: rest =>
    Text.isAsciiLetter c.toNat &&
      (rest.all isNameChar || (rest.getLast? == some '\n' && rest.dropLast.all isNameChar))

/-- Removes white space and semicolons at the end. -/
def dropTrailing (s : String) : String :=
  String.ofList (Text.dropEnd (fun c => Text.isBlank c.toNat || c = ';') s.toList)

/-- The names in the part after the number sign. -/
def methodNames (segment : String) : List String := Text.split ';' (dropTrailing segment)

/-- The absolute path of a file in which methods are named. -/
def methodFile (h : Host) (point file : String) : Except Fault String := do
  let absolute ← h.resolve file
  if !h.exists? absolute then throw (.invalidInput (.startPointMissing point absolute))
  else if h.isFolder absolute then throw (.invalidInput (.startPointFolder point absolute))
  else pure absolute

/-- The points that one start point stands for. -/
def parse (h : Host) (point : String) : Except Fault (List PathPoint) :=
  match Text.split '#' point with
  | [_] => do
    let file ← Workspace.existing h point
    pure [{ file }]
  | [file, methods] => do
    let file ← methodFile h point file
    let names := methodNames methods
    if names.all isMethodName then pure (names.map fun m => { file, method := some m })
    else throw (.invalidInput (.malformedStartPoint point))
  | _ => .error (.invalidInput (.malformedStartPoint point))

/-- The points of all start points, in order. -/
def parseAll (h : Host) : List String → Except Fault (List PathPoint)
  | [] => .ok []
  | p :: rest => do
    let points ← parse h p
    let more ← parseAll h rest
    pure (points ++ more)

/-- Whether a file is an input of the workspace or lies beneath a folder among them. -/
def isInside (h : Host) (inputs : List String) (file : String) : Bool :=
  inputs.any fun input =>
    file = input || (h.isFolder input && Text.startsWith file (Path.dropSlashes input ++ "/"))

/-- Refuses the first point that lies outside. -/
def checkInside (h : Host) (inputs : List String) : List PathPoint → Except Fault Unit
  | [] => .ok ()
  | p :: rest =>
    if isInside h inputs p.file then checkInside h inputs rest
    else .error (.invalidInput (.startPointOutside p.file inputs))

end StartPoint

/-- What an engine is told about a run. -/
structure RunOptions where
  workspace : Workspace
  startPoints : Option (List PathPoint) := none
  deriving DecidableEq, Repr, Inhabited

namespace RunOptions

/-- Checks what a caller asks for: a workspace with inputs, and start points inside it. -/
def resolve (h : Host) (workspace : Workspace) (points : List String) : Except Fault RunOptions :=
  if workspace.inputs.isEmpty then .error (.invalidInput .emptyWorkspace)
  else if points.isEmpty then .ok { workspace }
  else do
    let startPoints ← StartPoint.parseAll h points
    StartPoint.checkInside h workspace.inputs startPoints
    pure { workspace, startPoints := some startPoints }

/-- The options as data for the log. -/
def toJson (o : RunOptions) : Json :=
  .obj (("workspace", .strings o.workspace.inputs) ::
    match o.startPoints with
    | some points => [("path_start_points", .arr (points.map (PathPoint.toJson false)))]
    | none => [])

end RunOptions

end Polyscan
