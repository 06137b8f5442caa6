import ClassLinker.Imports.Basic
import ClassLinker.Registry

set_option autoImplicit false

namespace ClassLinker

structure DiscoveryReport where
  generation : Nat
  files : Nat
  classes : Nat
  skipped : Nat
  failed : List Diagnostic
  missingImports : MissingImports

def DiscoveryReport.toJson (r : DiscoveryReport) : Json :=
  .object [
    ("generation", .ofNat r.generation),
    ("files", .ofNat r.files),
    ("classes", .ofNat r.classes),
    ("skipped", .ofNat r.skipped),
    ("failed", .array (r.failed.map Diagnostic.toJson)),
    ("missingImports", r.missingImports.toJson)]

def classesJson (classes : Table Descriptor) : Json :=
  .object (classes.toList.map fun (name, d) => (name, d.toJson))

structure Snapshot where
  generation : Nat
  classes : Table Descriptor
  missingImports : MissingImports

def Snapshot.toJson (s : Snapshot) : Json :=
  .object [
    ("generation", .ofNat s.generation),
    ("classes", classesJson s.classes),
    ("missingImports", s.missingImports.toJson)]

def Registry.snapshot (r : Registry) (generation : Nat) (missing : MissingImports) : Snapshot :=
  ⟨generation, r.classes, missing⟩

end ClassLinker
