import ClassLinker.Json.Printer
import ClassLinker.Session.Discovery

set_option autoImplicit false

namespace ClassLinker

inductive FileChange where
  | created
  | changed
  | deleted
deriving DecidableEq, Repr

namespace Session

def forget (s : Session) (path : String) : Session :=
  let (removed, registry) := s.registry.removeFile path
  { s with
    registry
    cache := Cache.invalidateAll (s.cache.erase path)
    claims := s.claims.release path
    missing := forgetMissing s.missing (removed.map (·.name)) }

/-- Learns a file anew. The outcomes for other files may depend on its classes, and are forgotten. -/
def relearn (s : Session) (w : Workspace) (file : String) : Except Problem Unit × Session :=
  let path := s.pathOf file
  match w.read file with
  | .error fault => (.error (.unreadable file fault.message), s)
  | .ok source =>
    match s.define path source with
    | (.error problem, s) => (.error problem, s)
    | (.ok (), s) =>
      let s := (s.resolveImports w path).2.setState path .importsResolved
      (.ok (), { s with cache := s.cache.invalidateAll })

/-- Takes note of a change. A new file leads to a new search for all classes, which is reported. -/
def fileChanged (s : Session) (w : Workspace) (id : String) (change : FileChange) :
    Except Problem (Option DiscoveryReport) × Session :=
  let file := s.fileOf id
  match change with
  | .created =>
    if s.inScope file then
      let (report, s) := s.discover w
      (report.map some, s)
    else (.ok none, s)
  | .deleted => (.ok none, s.forget (s.pathOf file))
  | .changed =>
    let s := { s with cache := s.cache.invalidate (s.pathOf file) }
    if s.inScope file then
      let (outcome, s) := s.relearn w file
      (outcome.map fun _ => none, s)
    else (.ok none, s)

def snapshot (s : Session) : Snapshot := s.registry.snapshot s.generation s.missing

def virtualModule (s : Session) : String :=
  "export const classMap = " ++ (classesJson s.registry.classes).compact ++ ";\n"

def importClosure (s : Session) (w : Workspace) (name : String) : Option (List String) :=
  (s.registry.lookup name).map (s.surroundings w).closure

end Session

end ClassLinker
