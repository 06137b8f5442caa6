import ClassLinker.Json.Basic
import ClassLinker.Collections
import ClassLinker.WebPath

set_option autoImplicit false

namespace ClassLinker

inductive Target where
  | path (base : String)
  | disabled
deriving DecidableEq, Repr

inductive DedupPolicy where
  | global
  | file
deriving DecidableEq, Repr

inductive UnmappedPolicy where
  | warn
  | fatal
deriving DecidableEq, Repr

structure Config where
  mappings : Table Target
  included : List String
  excluded : List String
  dedup : DedupPolicy
  unmapped : UnmappedPolicy
  replaceCallParent : Bool
  autoImportAssets : Bool
  scripts : List String
  assets : List String
  classSystems : List String

namespace Config

def default : Config where
  mappings := ∅
  included := []
  excluded := []
  dedup := .global
  unmapped := .warn
  replaceCallParent := true
  autoImportAssets := false
  scripts := ["js"]
  assets := ["scss"]
  classSystems := ["Ext"]

end Config

def Target.normal : Target → Target
  | .path base => .path (WebPath.normaliseBase base)
  | .disabled => .disabled

def Config.withMapping (c : Config) (namespaceName : String) (target : Target) : Config :=
  { c with mappings := c.mappings.insert namespaceName target.normal }

def Target.toJson : Target → Json
  | .path base => .string base
  | .disabled => .bool false

def DedupPolicy.name : DedupPolicy → String
  | .global => "global"
  | .file => "file"

def UnmappedPolicy.name : UnmappedPolicy → String
  | .warn => "warn"
  | .fatal => "fatal"

def Config.toJson (c : Config) : Json :=
  .object [
    ("mappings", .object (c.mappings.toList.map fun (name, target) => (name, target.toJson))),
    ("include", .strings c.included),
    ("exclude", .strings c.excluded),
    ("dedup", .string c.dedup.name),
    ("unmapped", .string c.unmapped.name),
    ("replaceCallParent", .bool c.replaceCallParent),
    ("autoImportAssets", .bool c.autoImportAssets),
    ("scripts", .strings c.scripts),
    ("assets", .strings c.assets),
    ("classSystems", .strings c.classSystems)]

end ClassLinker
