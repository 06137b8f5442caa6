import ClassLinker.Cache
import ClassLinker.Imports.Walk

set_option autoImplicit false

namespace ClassLinker

structure Session where
  root : String
  config : Config
  resolver : Resolver
  included : List Glob
  excluded : List Glob
  registry : Registry
  cache : Cache
  claims : Claims
  missing : MissingImports
  generation : Nat

namespace Session

def withoutSlashes (path : String) : String := String.ofList (path.toList.dropWhile (· = '/'))

def globs (patterns : List String) : Except Problem (List Glob) :=
  patterns.mapM fun pattern =>
    let text := withoutSlashes pattern
    match Glob.parse text with
    | .ok glob => .ok glob
    | .error fault => .error (.badConfig ("pattern `" ++ pattern ++ "`: " ++ fault.message text))

def create (root : String) (config : Config) : Except Problem Session := do
  let included ← globs config.included
  let excluded ← globs config.excluded
  return {
    root, config, included, excluded
    resolver := .ofConfig config
    registry := .empty
    cache := ∅
    claims := .ofPolicy config.dedup
    missing := ∅
    generation := 0 }

def cleared (s : Session) : Session :=
  { s with registry := .empty, cache := ∅, claims := .ofPolicy s.config.dedup, missing := ∅ }

def surroundings (s : Session) (w : Workspace) : Surroundings := ⟨s.registry, s.resolver, w, s.config⟩

def isBelow (directory path : String) : Bool :=
  directory == "/" || path == directory ||
    (Text.dropStart? directory.toList path.toList).any fun rest => rest.head? = some '/'

def inNamespace (s : Session) (path : String) : Bool :=
  s.resolver.baseDirectories.any fun (_, directory) => isBelow directory path

def accepts (globs : List Glob) (file : String) : Bool :=
  globs.any (·.accepts (withoutSlashes file))

def isIncluded (s : Session) (file : String) : Bool := accepts s.included file

/-- Whether a file is ruled out by a pattern and not asked for by another. -/
def isExcluded (s : Session) (file : String) : Bool := accepts s.excluded file && !s.isIncluded file

def isScript (s : Session) (file : String) : Bool :=
  WebPath.withoutScriptExtension file s.config.scripts != file

def fileOf (s : Session) (id : String) : String := WebPath.ofFileId s.root id []

def pathOf (s : Session) (file : String) : String := WebPath.normalise file s.config.scripts

def inScope (s : Session) (file : String) : Bool :=
  s.isScript file && !s.isExcluded file && (s.isIncluded file || s.inNamespace (s.pathOf file))

def scriptExtension (s : Session) : String := s.config.scripts.head?.getD "js"

def checkUnmapped (s : Session) (count : Nat) : Except Problem Unit :=
  if s.config.unmapped = .fatal && 0 < count then .error (.unmappedNamespaces count) else .ok ()

end Session

end ClassLinker
