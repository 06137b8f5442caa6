import ClassLinker.Config.Basic
import ClassLinker.Json.Reader
import ClassLinker.Problem
import ClassLinker.Toml.Parser

set_option autoImplicit false

namespace ClassLinker.Config

open Json (Fault Read Unitary readBool readString readList readChoice sortedMembers)

def readStrings : Read (List String) := readList readString

def readTarget : Read Target
  | .string base => .ok (Target.path base).normal
  | .bool false => .ok .disabled
  | .bool true => .error (.refused "a namespace mapping must be a base path or `false`")
  | _ => .error (.refused "data did not match any variant of untagged enum Raw")

def readMappings : Read (Table Target)
  | .object members => do
    let entries ← (sortedMembers members).mapM fun (name, value) => return (name, ← readTarget value)
    return Table.ofList entries
  | v => .error (.invalidType v "a map")

def dedupNames : List (String × DedupPolicy) :=
  [("global", .global), ("file", .file), ("perFile", .file)]

def unmappedNames : List (String × UnmappedPolicy) := [("warn", .warn), ("fatal", .fatal)]

def fieldNames : List String :=
  ["mappings", "include", "exclude", "dedup", "unmapped", "replaceCallParent", "autoImportAssets", "scripts",
   "assets", "classSystems"]

def setField (unit : Unitary) (c : Config) (name : String) (value : Json) : Except Fault Config :=
  match name with
  | "mappings" => return { c with mappings := ← readMappings value }
  | "include" => return { c with included := ← readStrings value }
  | "exclude" => return { c with excluded := ← readStrings value }
  | "dedup" => return { c with dedup := ← readChoice unit dedupNames value }
  | "unmapped" => return { c with unmapped := ← readChoice unit unmappedNames value }
  | "replaceCallParent" => return { c with replaceCallParent := ← readBool value }
  | "autoImportAssets" => return { c with autoImportAssets := ← readBool value }
  | "scripts" => return { c with scripts := ← readStrings value }
  | "assets" => return { c with assets := ← readStrings value }
  | "classSystems" => return { c with classSystems := ← readStrings value }
  | _ => return c

def setFields (unit : Unitary) (c : Config) (fields : List (String × Json)) : Except Fault Config :=
  fields.foldlM (fun c (name, value) => setField unit c name value) c

def read (unit : Unitary) : Read Config
  | .object members => setFields unit default (sortedMembers members)
  | .array items => do
    let c ← setFields unit default (fieldNames.zip items)
    if fieldNames.length < items.length then .error (.invalidLength items.length "fewer elements in array") else return c
  | v => .error (.invalidType v "struct Config")

def ofJson (value : Json) : Except Problem Config :=
  match value with
  | .null => .ok default
  | v => match read Json.nullUnit v with
    | .ok c => .ok c
    | .error fault => .error (.badConfig fault.message)

/-- In TOML, which has no null, a choice without contents is empty. -/
def tomlUnit : Unitary
  | .object [] | .array [] => .ok ()
  | v => .error (.invalidType v "empty table")

def ofToml (text : String) : Except Problem Config :=
  match Toml.parse? text with
  | none => .error (.badConfig "TOML parse error")
  | some value => match read tomlUnit value with
    | .ok c => .ok c
    | .error fault => .error (.badConfig fault.message)

end ClassLinker.Config
