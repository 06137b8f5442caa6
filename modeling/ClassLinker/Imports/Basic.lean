import ClassLinker.Diagnostic
import ClassLinker.Collections

set_option autoImplicit false

namespace ClassLinker

inductive ImportEntry where
  | script (path : String)
  | asset (path : String)
deriving DecidableEq, Repr

namespace ImportEntry

def path : ImportEntry → String
  | .script p => p
  | .asset p => p

def specifier (ext : String) : ImportEntry → String
  | .script p => p ++ "." ++ ext
  | .asset p => p

def script? : ImportEntry → Option String
  | .script p => some p
  | .asset _ => none

def block (ext : String) (entries : List ImportEntry) : String :=
  if entries.isEmpty then ""
  else
    let lines := entries.map fun e => "import '" ++ e.specifier ext ++ "';\n"
    "/*** <extjs-import> ***/\n" ++ String.join lines ++ "/*** </extjs-import> ***/\n\n"

end ImportEntry

abbrev MissingImports := Table (List String)

namespace MissingImports

def count (m : MissingImports) : Nat :=
  m.toList.foldl (fun n (_, references) => n + references.length) 0

def toJson (m : MissingImports) : Json :=
  .object (m.toList.map fun (name, references) => (name, .strings references))

end MissingImports

structure ResolvedImports where
  entries : List ImportEntry
  byClass : List (String × List String)
  missing : MissingImports
  diagnostics : List Diagnostic

end ClassLinker
