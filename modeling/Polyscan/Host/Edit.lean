import Polyscan.Host.Basic

/-! Changes to the files of a machine that come from outside the analyzer. -/
namespace Polyscan

inductive Edit where
  | write (path : String) (content : FileContent)
  | makeFolder (path : String)
  | makeLink (path target : String)
  | remove (path : String)

namespace Host

/-- Puts a node where a path leads; what was there is replaced. -/
def place (h : Host) (p : String) (follow : Bool) (new : Option Node) : Host :=
  match h.locate p follow with
  | .ok (.free folder name) => { h with files := h.files.setAt new (folder ++ [name]) }
  | .ok (.found names) => { h with files := h.files.setAt new names }
  | .error _ => h

/-- Makes the folder of a path unless something is there. -/
def ensureFolder (h : Host) (p : String) : Host :=
  if h.exists? p then h else h.place p true (some (.folder []))

/-- Makes the folders on the way down from `folder`. -/
def ensureFolders (h : Host) (folder : String) : List String → Host
  | [] => h
  | name :: rest =>
    let next := Path.join folder name
    (h.ensureFolder next).ensureFolders next rest

/-- Makes all folders above a path. -/
def ensureParents (h : Host) (base : String) (p : String) : Host :=
  h.ensureFolders base (Path.components p).dropLast

/-- Applies a change at a path beneath `base`. -/
def edit (h : Host) (base : String) : Edit → Host
  | .write p content => (h.ensureParents base p).place (Path.join base p) true (some (.file content))
  | .makeFolder p => h.ensureFolders base (Path.components p)
  | .makeLink p target => (h.ensureParents base p).place (Path.join base p) false (some (.link target))
  | .remove p => h.place (Path.join base p) false none

/-- Makes a folder the working directory, by its real place. -/
def enter (h : Host) (p : String) : Host :=
  match h.real? p with
  | some names => { h with cwd := names }
  | none => h

end Host

end Polyscan
