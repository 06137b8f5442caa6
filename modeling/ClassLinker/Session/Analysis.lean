import ClassLinker.Definition
import ClassLinker.Session.Basic
import ClassLinker.Text.Digest

set_option autoImplicit false

namespace ClassLinker

structure Analysis where
  tree : Script.Tree
  classes : List ClassDefinition
  existing : List String

namespace Session

def analyse (s : Session) (path source : String) : Except Problem Analysis := do
  let tree ← Script.Tree.parse path source
  return {
    tree
    classes := ClassDefinition.all tree s.config.classSystems path
    existing := tree.staticImports.filterMap fun specifier =>
      WebPath.ofSpecifier? path specifier s.config.scripts }

def failedRecord (path source : String) (problem : Problem) (classes : List String) : FileRecord :=
  { path
    fingerprint := Digest.fingerprint source
    definedClasses := classes
    state := .failed
    diagnostics := [problem.toDiagnostic path]
    error := some problem }

def forgetMissing (missing : MissingImports) (names : List String) : MissingImports :=
  names.foldl (fun m name => m.erase name) missing

def replaceClasses (s : Session) (path : String) (classes : List Descriptor) : Session :=
  let (removed, registry) := s.registry.removeFile path
  { s with
    registry := classes.foldl (fun r d => (r.register d).2) registry
    missing := forgetMissing s.missing (removed.map (·.name)) }

def adopt (s : Session) (path source : String) (a : Analysis) (diagnostics : List Diagnostic) : Session :=
  let s := s.replaceClasses path (a.classes.map (·.descriptor))
  { s with cache := s.cache.put {
      path
      fingerprint := Digest.fingerprint source
      definedClasses := a.classes.map (·.descriptor.name)
      existingImports := a.existing
      state := .classesExtracted
      diagnostics } }

def classFindings (a : Analysis) : List Diagnostic := a.classes.flatMap (·.diagnostics)

def define (s : Session) (path source : String) : Except Problem Unit × Session :=
  match s.analyse path source with
  | .error problem => (.error problem, { s with cache := s.cache.put (failedRecord path source problem []) })
  | .ok a => (.ok (), s.adopt path source a (classFindings a))

def resolveImports (s : Session) (w : Workspace) (path : String) : ResolvedImports × Session :=
  let classes := s.registry.classesIn path
  let existing := (s.cache[path]?.map (·.existingImports)).getD []
  let (found, claims) := (s.surroundings w).resolveFile path classes existing (s.claims.release path)
  let registry := found.byClass.foldl (fun r (name, imports) => r.setImports name imports) s.registry
  let missing := found.missing.toList.foldl (fun m (name, references) => m.insert name references)
    (forgetMissing s.missing (classes.map (·.name)))
  (found, { s with registry, claims, missing })

def setState (s : Session) (path : String) (state : FileState) : Session :=
  { s with cache := s.cache.update path fun r => { r with state } }

end Session

end ClassLinker
