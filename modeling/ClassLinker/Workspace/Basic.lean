import ClassLinker.Text.Parts

set_option autoImplicit false

namespace ClassLinker

inductive Contents where
  | text (s : String)
  | binary
deriving DecidableEq, Repr

def Contents.ofBytes (data : ByteArray) : Contents :=
  match String.fromUTF8? data with
  | some s => .text s
  | none => .binary

namespace Workspace

inductive Node where
  | file (contents : Contents)
  | directory (entries : List (String × Node))

end Workspace

structure Workspace where
  entries : List (String × Workspace.Node)

namespace Workspace

def empty : Workspace := ⟨[]⟩

def root (w : Workspace) : Node := .directory w.entries

inductive Fault where
  | missing
  | notDirectory
  | isDirectory
  | notText
deriving DecidableEq, Repr

def Fault.message : Fault → String
  | .missing => "No such file or directory (os error 2)"
  | .notDirectory => "Not a directory (os error 20)"
  | .isDirectory => "Is a directory (os error 21)"
  | .notText => "stream did not contain valid UTF-8"

/-- Follows path components. A place is given by the nodes on the way to it, the innermost first; there are none
above the root, where nothing is known. -/
def follow : List Node → List String → Except Fault (List Node)
  | trail, [] => .ok trail
  | [], name :: rest =>
    if name = "" || name = "." || name = ".." then follow [] rest else .error .missing
  | .file _ :: _, _ :: _ => .error .notDirectory
  | .directory entries :: outer, name :: rest =>
    if name = "" || name = "." then follow (.directory entries :: outer) rest
    else if name = ".." then follow outer rest
    else match entries.lookup name with
      | some node => follow (node :: .directory entries :: outer) rest
      | none => .error .missing

def components (path : String) : List String :=
  (Text.splitOn '/' (path.toList.dropWhile (· = '/'))).map String.ofList

def find (w : Workspace) (path : String) : Except Fault (List Node) :=
  follow [w.root] (components path)

def read (w : Workspace) (path : String) : Except Fault String :=
  match w.find path with
  | .error fault => .error fault
  | .ok (.file (.text s) :: _) => .ok s
  | .ok (.file .binary :: _) => .error .notText
  | .ok _ => .error .isDirectory

def hasFile (w : Workspace) (path : String) : Bool :=
  match w.find path with
  | .ok (.file _ :: _) => true
  | _ => false

def setEntry (name : String) (node : Node) : List (String × Node) → List (String × Node)
  | [] => [(name, node)]
  | (key, old) :: rest => if key = name then (key, node) :: rest else (key, old) :: setEntry name node rest

def put (node : Node) : List String → List (String × Node) → List (String × Node)
  | [], entries => entries
  | [name], entries => setEntry name node entries
  | name :: rest, entries =>
    match entries.lookup name with
    | some (.directory inner) => setEntry name (.directory (put node rest inner)) entries
    | _ => setEntry name (.directory (put node rest [])) entries

def drop : List String → List (String × Node) → List (String × Node)
  | [], entries => entries
  | [name], entries => entries.filter fun (key, _) => key ≠ name
  | name :: rest, entries =>
    match entries.lookup name with
    | some (.directory inner) => setEntry name (.directory (drop rest inner)) entries
    | _ => entries

def plainComponents (path : String) : List String :=
  (components path).filter fun name => name ≠ "" && name ≠ "."

def write (w : Workspace) (path : String) (contents : Contents) : Workspace :=
  ⟨put (.file contents) (plainComponents path) w.entries⟩

def makeDirectory (w : Workspace) (path : String) : Workspace :=
  match w.find path with
  | .ok (.directory _ :: _) => w
  | _ => ⟨put (.directory []) (plainComponents path) w.entries⟩

def remove (w : Workspace) (path : String) : Workspace :=
  ⟨drop (plainComponents path) w.entries⟩

end Workspace

end ClassLinker
