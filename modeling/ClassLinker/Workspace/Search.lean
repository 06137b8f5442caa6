import ClassLinker.Glob.Parser
import ClassLinker.Text.Parts
import ClassLinker.WebPath
import ClassLinker.Workspace.Basic

set_option autoImplicit false

namespace ClassLinker.Workspace

mutual

def Node.files (base : List Char) : Node → List (List Char)
  | .file _ => [base]
  | .directory entries => filesBelow base entries

def filesBelow (base : List Char) : List (String × Node) → List (List Char)
  | [] => []
  | (name, node) :: rest => node.files (base ++ '/' :: name.toList) ++ filesBelow base rest

end

def dropDots : List Char → List Char
  | '/' :: rest => dropDots rest
  | ['.'] => []
  | '.' :: '/' :: rest => dropDots rest
  | cs => cs

/-- How the paths below a directory start: as the directory is spelled, up to one slash at its end. -/
def spelled (directory : List Char) : List Char :=
  match dropDots directory with
  | [] => []
  | cs => '/' :: if cs.getLast? = some '/' then cs.dropLast else cs

def walk (w : Workspace) (directory : String) : List String :=
  match w.find directory with
  | .ok (.directory entries :: _) =>
    let found := filesBelow (spelled directory.toList) entries
    (found.map fun path => String.ofList (WebPath.slashed path)).mergeSort (· ≤ ·)
  | _ => []

def hasExtension (extensions : List String) (path : String) : Bool :=
  extensions.any fun ext => (WebPath.withoutExtension? ext.toList path.toList).isSome

def list (w : Workspace) (directory : String) (extensions : List String) : List String :=
  (w.walk directory).filter (hasExtension extensions)

def isMeta (c : Char) : Bool := c = '*' || c = '?' || c = '[' || c = '\x7b'

def literalDirectory (pattern : List Char) : List Char :=
  WebPath.directory (pattern.takeWhile (! isMeta ·))

/-- The files that a pattern matches, sorted; a pattern that cannot be read matches none. The search starts in the
directory that the pattern names literally. -/
def expand (w : Workspace) (pattern : String) : List String :=
  let cs := pattern.toList
  let cs := if cs.head? = some '/' then cs else '/' :: cs
  match Glob.parse (String.ofList cs) with
  | .error _ => []
  | .ok glob => (w.walk (String.ofList (literalDirectory cs))).filter glob.accepts

end ClassLinker.Workspace
