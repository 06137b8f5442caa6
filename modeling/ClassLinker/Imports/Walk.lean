import ClassLinker.Claims
import ClassLinker.Imports.Basic
import ClassLinker.Registry
import ClassLinker.Resolver

set_option autoImplicit false

/-!
The walk from the classes of a file over their references. Before a path is imported, so are the paths that the
classes in it refer to.
-/

namespace ClassLinker

structure Surroundings where
  registry : Registry
  resolver : Resolver
  workspace : Workspace
  config : Config

inductive Lead where
  | paths (found : List String)
  | disabled
  | missing (namespaceName : String)
  | cycle (problem : Problem)

namespace Surroundings

def isDisabled (s : Surroundings) (name : String) : Bool :=
  (s.resolver.mappingFor? name).any fun (m, _) => m.target = .disabled

/-- What a name that is no alternate one leads to. A class that is known is where it was found, whatever its name
says. -/
def leadOfCanonical (s : Surroundings) (name : String) : Lead :=
  if s.isDisabled name then .disabled
  else match s.registry.get? name with
    | some known => .paths [known.sourceFile]
    | none =>
      match s.resolver.resolveCanonical s.workspace name with
      | .paths found => .paths found
      | .disabled => .disabled
      | .unmapped namespaceName => .missing namespaceName

def lead (s : Surroundings) (reference : String) : Lead :=
  match Resolver.canonicalName s.registry.alternates reference with
  | .error problem => .cycle problem
  | .ok name => s.leadOfCanonical name

def assetsOf (s : Surroundings) (path : String) : List ImportEntry :=
  if s.config.autoImportAssets then
    ((s.config.assets.map fun ext => path ++ "." ++ ext).filter s.workspace.hasFile).map .asset
  else []

end Surroundings

structure Walk where
  owner : String
  emitted : Table Unit
  visited : Table Unit
  claims : Option Claims
  entries : List ImportEntry
  byClass : List (String × List String)
  missing : MissingImports
  diagnostics : List Diagnostic

namespace Walk

def start (owner : String) (emitted visited : List String) (claims : Option Claims) : Walk where
  owner := owner
  emitted := Table.ofList (emitted.map (·, ()))
  visited := Table.ofList (visited.map (·, ()))
  claims := claims
  entries := []
  byClass := []
  missing := ∅
  diagnostics := []

def addFinding (w : Walk) (d : Diagnostic) : Walk := { w with diagnostics := w.diagnostics ++ [d] }

def unmappedFinding (w : Walk) (namespaceName className reference : String) : Diagnostic :=
  ⟨.unmappedNamespace, .warning, w.owner, none,
   s!"'{namespaceName}' namespace is not mapped. [{className} requires {reference}]"⟩

def addMissing (w : Walk) (className reference namespaceName : String) : Walk :=
  { w with missing := w.missing.insert className (pushUnique (w.missing[className]?.getD []) reference) }.addFinding
    (w.unmappedFinding namespaceName className reference)

def addCycle (w : Walk) (problem : Problem) : Walk :=
  let d := problem.toDiagnostic w.owner
  if d ∈ w.diagnostics then w else w.addFinding d

def claim (w : Walk) (path : String) : Bool × Walk :=
  match w.claims with
  | none => (true, w)
  | some claims =>
    let (granted, claims) := claims.claim path w.owner
    (granted, { w with claims := some claims })

def addScript (w : Walk) (path : String) (assets : List ImportEntry) : Walk :=
  { w with
    entries := w.entries ++ .script path :: assets
    byClass := match w.byClass with
      | (name, paths) :: rest => (name, paths ++ [path]) :: rest
      | [] => [] }

def markVisited (w : Walk) (name : String) : Walk := { w with visited := w.visited.insert name () }

def markEmitted (w : Walk) (path : String) : Walk := { w with emitted := w.emitted.insert path () }

/-- Meets a path: what the classes in it need comes first, then the path itself. `visit` follows the references of a
class. -/
def emit (s : Surroundings) (visit : Descriptor → Walk → Walk) (w : Walk) (path : String) : Walk :=
  if path = w.owner || w.emitted.contains path then w
  else
    let w := (s.registry.classesIn path).foldl
      (fun w d => if w.visited.contains d.name then w else visit d (w.markVisited d.name)) (w.markEmitted path)
    let (granted, w) := w.claim path
    if granted then w.addScript path (s.assetsOf path) else w

/-- Follows the references of a class. Missing ones are noted only for the classes of the file itself, which are met
directly. A class is visited once, so that `n` above the number of known classes bounds the depth. -/
def visit (s : Surroundings) : Nat → Bool → Descriptor → Walk → Walk
  | 0, _, _, w => w
  | n + 1, direct, d, w =>
    d.references.foldl (fun w reference =>
      match s.lead reference with
      | .paths found => found.foldl (emit s (visit s n false)) w
      | .disabled => w
      | .missing namespaceName => if direct then w.addMissing d.name reference namespaceName else w
      | .cycle problem => w.addCycle problem) w

def visitOwn (s : Surroundings) (w : Walk) (d : Descriptor) : Walk :=
  visit s (s.registry.size + 1) true d { w with byClass := (d.name, []) :: w.byClass }

def result (w : Walk) : ResolvedImports :=
  ⟨w.entries, w.byClass.reverse, w.missing, w.diagnostics⟩

end Walk

namespace Surroundings

def resolveFile (s : Surroundings) (file : String) (classes : List Descriptor) (existing : List String)
    (claims : Claims) : ResolvedImports × Claims :=
  let start := Walk.start file existing (classes.map (·.name)) (some claims)
  let walk := classes.foldl (Walk.visitOwn s) start
  (walk.result, walk.claims.getD claims)

def resolveClass (s : Surroundings) (d : Descriptor) (claims : Claims) : ResolvedImports × Claims :=
  s.resolveFile d.sourceFile [d] [] claims

/-- All scripts that a class needs, each after those that it needs itself. -/
def closure (s : Surroundings) (d : Descriptor) : List String :=
  let start := Walk.start d.sourceFile [] [d.name] none
  (Walk.visit s (s.registry.size + 1) true d start).entries.filterMap ImportEntry.script?

end Surroundings

end ClassLinker
