import ClassLinker.ParentCall
import ClassLinker.Session.Analysis

set_option autoImplicit false

namespace ClassLinker.Session

def render (s : Session) (path source : String) (a : Analysis) (found : ResolvedImports) : TransformOutput :=
  let ext := s.scriptExtension
  let findings := classFindings a ++ found.diagnostics
  let (body, findings) :=
    if s.config.replaceCallParent then
      let r := ParentCall.substitute a.tree path a.classes
      (r.code, findings ++ r.diagnostics)
    else (source, findings)
  let code := ImportEntry.block ext found.entries ++ body
  { code
    imports := found.entries.map (·.specifier ext)
    diagnostics := findings
    changed := code != source }

def transformNew (s : Session) (w : Workspace) (path source : String) : Except Problem TransformOutput × Session :=
  match s.analyse path source with
  | .error problem =>
    let classes := (s.cache[path]?.map (·.definedClasses)).getD []
    (.error problem, { s with cache := s.cache.put (failedRecord path source problem classes) })
  | .ok a =>
    let (found, s) := (s.adopt path source a []).resolveImports w path
    let s := s.setState path .importsResolved
    match s.checkUnmapped found.missing.count with
    | .error problem => (.error problem, s)
    | .ok () =>
      let output := s.render path source a found
      (.ok output,
        { s with cache := s.cache.update path fun r =>
            { r with diagnostics := output.diagnostics, output := some output, state := .cached } })

/-- Transforms the source of a file. Files that do not belong to the session have no outcome. -/
def transform (s : Session) (w : Workspace) (id source : String) :
    Except Problem (Option TransformOutput) × Session :=
  let file := s.fileOf id
  if WebPath.isAlwaysSkipped id || !s.inScope file then (.ok none, s)
  else
    let path := s.pathOf file
    match s.cache.lookup path (Digest.fingerprint source) with
    | .hit output => (.ok (some output), s)
    | .failed problem => (.error problem, s)
    | .miss =>
      let (outcome, s) := s.transformNew w path source
      (outcome.map some, s)

end ClassLinker.Session
