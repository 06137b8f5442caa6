import ClassLinker.Descriptor
import ClassLinker.Collections

set_option autoImplicit false

namespace ClassLinker

structure Registry where
  classes : Table Descriptor
  alternates : Table String
  aliases : Table String
  byFile : Table (List String)

namespace Registry

def empty : Registry := ⟨∅, ∅, ∅, ∅⟩

def size (r : Registry) : Nat := r.classes.size

def get? (r : Registry) (name : String) : Option Descriptor := r.classes[name]?

def withoutTarget (index : Table String) (name : String) : Table String :=
  index.filter fun _ target => target ≠ name

def disown (byFile : Table (List String)) (file name : String) : Table (List String) :=
  match byFile[file]? with
  | none => byFile
  | some names =>
    let rest := names.filter (· ≠ name)
    if rest.isEmpty then byFile.erase file else byFile.insert file rest

def unregister (r : Registry) (name : String) : Option Descriptor × Registry :=
  match r.classes[name]? with
  | none => (none, r)
  | some old =>
    (some old,
      { classes := r.classes.erase name
        alternates := withoutTarget r.alternates name
        aliases := withoutTarget r.aliases name
        byFile := disown r.byFile old.sourceFile name })

/-- Adds a class, in the place of the one that had its name, which is given back. A class that moves to another file
no longer belongs to the old one. -/
def register (r : Registry) (d : Descriptor) : Option Descriptor × Registry :=
  let (previous, r) := r.unregister d.name
  (previous,
    { classes := r.classes.insert d.name d
      alternates := d.alternateNames.foldl (fun index name => index.insert name d.name) r.alternates
      aliases := match d.shortName with
        | some name => r.aliases.insert name d.name
        | none => r.aliases
      byFile := r.byFile.insert d.sourceFile (pushUnique (r.byFile[d.sourceFile]?.getD []) d.name) })

def unregisterAll : Registry → List String → List Descriptor × Registry
  | r, [] => ([], r)
  | r, name :: rest =>
    let (removed, r) := r.unregister name
    let (more, r) := unregisterAll r rest
    (removed.toList ++ more, r)

def removeFile (r : Registry) (file : String) : List Descriptor × Registry :=
  { r with byFile := r.byFile.erase file }.unregisterAll (r.byFile[file]?.getD [])

/-- The class with a name, else the one with that alternate name, else the one with that alias. -/
def lookup (r : Registry) (name : String) : Option Descriptor :=
  r.get? name <|> (r.alternates[name]?.bind r.get?) <|> (r.aliases[name]?.bind r.get?)

def classesIn (r : Registry) (file : String) : List Descriptor :=
  (r.byFile[file]?.getD []).filterMap r.get?

def files (r : Registry) : List String := r.byFile.keys

def setImports (r : Registry) (name : String) (imports : List String) : Registry :=
  match r.classes[name]? with
  | none => r
  | some d => { r with classes := r.classes.insert name { d with imports } }

end Registry

end ClassLinker
