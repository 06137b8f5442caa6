import ClassLinker.Diagnostic
import ClassLinker.Problem

set_option autoImplicit false

namespace ClassLinker

structure TransformOutput where
  code : String
  imports : List String
  diagnostics : List Diagnostic
  changed : Bool
deriving DecidableEq, Repr

def TransformOutput.toJson (o : TransformOutput) : Json :=
  .object [
    ("code", .string o.code),
    ("imports", .strings o.imports),
    ("diagnostics", .array (o.diagnostics.map Diagnostic.toJson)),
    ("changed", .bool o.changed)]

inductive FileState where
  | unseen
  | parsed
  | classesExtracted
  | importsResolved
  | substituted
  | cached
  | failed
deriving DecidableEq, Repr

namespace FileState

def name : FileState → String
  | .unseen => "unseen"
  | .parsed => "parsed"
  | .classesExtracted => "classesExtracted"
  | .importsResolved => "importsResolved"
  | .substituted => "rewritten"
  | .cached => "cached"
  | .failed => "failed"

def all : List FileState :=
  [.unseen, .parsed, .classesExtracted, .importsResolved, .substituted, .cached, .failed]

def ofName? (s : String) : Option FileState := all.find? (·.name = s)

def isAnalysed : FileState → Bool
  | .unseen | .parsed | .failed => false
  | .classesExtracted | .importsResolved | .substituted | .cached => true

end FileState

structure FileRecord where
  path : String
  fingerprint : String
  definedClasses : List String := []
  existingImports : List String := []
  output : Option TransformOutput := none
  state : FileState := .unseen
  diagnostics : List Diagnostic := []
  error : Option Problem := none
deriving DecidableEq, Repr

end ClassLinker
