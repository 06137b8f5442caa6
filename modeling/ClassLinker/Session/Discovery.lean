import ClassLinker.Report
import ClassLinker.Session.Analysis

set_option autoImplicit false

namespace ClassLinker.Session

/-- The files of a workspace that may define classes, sorted: the scripts in the mapped directories, and what the
patterns ask for. -/
def candidates (s : Session) (w : Workspace) : List String :=
  sortedUnique <|
    (s.resolver.baseDirectories.flatMap fun (_, directory) => w.list directory s.config.scripts) ++
    s.config.included.flatMap w.expand

structure Tally where
  session : Session
  files : Nat := 0
  skipped : Nat := 0
  failed : List Diagnostic := []
  discovered : List String := []

def Tally.add (w : Workspace) (t : Tally) (file : String) : Tally :=
  if t.session.isExcluded file then { t with skipped := t.skipped + 1 }
  else
    let path := t.session.pathOf file
    match w.read file with
    | .error fault =>
      { t with failed := t.failed ++ [(Problem.unreadable file fault.message).toDiagnostic path] }
    | .ok source =>
      let t := { t with files := t.files + 1 }
      match t.session.define path source with
      | (.ok (), session) => { t with session, discovered := t.discovered ++ [path] }
      | (.error problem, session) => { t with session, failed := t.failed ++ [problem.toDiagnostic path] }

def settle (w : Workspace) (s : Session) (path : String) : Session :=
  let (found, s) := s.resolveImports w path
  { s with cache := s.cache.update path fun r =>
      { r with diagnostics := r.diagnostics ++ found.diagnostics, state := .importsResolved } }

def discover (s : Session) (w : Workspace) : Except Problem DiscoveryReport × Session :=
  let fresh := { s.cleared with generation := s.generation + 1 }
  let tally := (fresh.candidates w).foldl (Tally.add w) { session := fresh }
  let s := tally.discovered.foldl (settle w) tally.session
  let report : DiscoveryReport := {
    generation := s.generation
    files := tally.files
    classes := s.registry.size
    skipped := tally.skipped
    failed := tally.failed
    missingImports := s.missing }
  ((s.checkUnmapped s.missing.count).map fun _ => report, s)

def begin (root : String) (config : Config) (w : Workspace) : Except Problem (DiscoveryReport × Session) := do
  let s ← create root config
  match s.discover w with
  | (.ok report, s) => return (report, s)
  | (.error problem, _) => throw problem

end ClassLinker.Session
