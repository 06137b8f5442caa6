import ClassLinker.Workspace.Basic

set_option autoImplicit false

namespace ClassLinker

/-- Access to files by path; paths that do not start with a slash are relative to a current directory. -/
structure Disk (m : Type → Type) where
  current : m String
  workspace : String → m Workspace
  read : String → m (Except Workspace.Fault String)
  isFile : String → m Bool
  canonical? : String → m (Option String)

def joinPath (directory path : String) : String :=
  if path.toList.head? = some '/' then path
  else if directory.toList.getLast? = some '/' then directory ++ path
  else directory ++ "/" ++ path

namespace Workspace

def trailNames : List String → List String → List String
  | trail, [] => trail.reverse
  | trail, name :: rest =>
    if name = "" || name = "." then trailNames trail rest
    else if name = ".." then trailNames trail.tail rest
    else trailNames (name :: trail) rest

def below (w : Workspace) (path : String) : Workspace :=
  match w.find path with
  | .ok (.directory entries :: _) => ⟨entries⟩
  | _ => .empty

end Workspace

namespace Disk

def inMemory (files : Workspace) (current : String) : Disk Id where
  current := current
  workspace path := files.below (joinPath current path)
  read path := files.read (joinPath current path)
  isFile path := files.hasFile (joinPath current path)
  canonical? path :=
    let path := joinPath current path
    match files.find path with
    | .ok (_ :: _) =>
      some (String.ofList ('/' ::
        Text.joinWith '/' ((Workspace.trailNames [] (Workspace.components path)).map String.toList)))
    | _ => none

end Disk

end ClassLinker
