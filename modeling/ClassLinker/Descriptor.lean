import ClassLinker.Collections
import ClassLinker.Json.Basic

set_option autoImplicit false

namespace ClassLinker

structure Descriptor where
  name : String
  shortName : Option String := none
  alternateNames : List String := []
  parent : Option String := none
  overrideTarget : Option String := none
  requires : List String := []
  uses : List String := []
  mixins : List String := []
  imports : List String := []
  sourceFile : String
deriving DecidableEq, Repr

namespace Descriptor

/-- The classes that the class refers to, in the order in which they are imported. -/
def references (d : Descriptor) : List String :=
  d.parent.toList ++ d.overrideTarget.toList ++ d.requires ++ d.uses ++ d.mixins

/-- Members that are empty or missing are left out, apart from the four lists that always stand. -/
def toJson (d : Descriptor) : Json :=
  .object <|
    [("name", .string d.name)] ++
    d.shortName.toList.map (fun s => ("alias", .string s)) ++
    (if d.alternateNames.isEmpty then [] else [("alternateNames", .strings d.alternateNames)]) ++
    d.parent.toList.map (fun s => ("parent", .string s)) ++
    d.overrideTarget.toList.map (fun s => ("overrideTarget", .string s)) ++
    [("requires", .strings d.requires), ("uses", .strings d.uses), ("mixins", .strings d.mixins),
     ("imports", .strings d.imports), ("sourceFile", .string d.sourceFile)]

end Descriptor

end ClassLinker
