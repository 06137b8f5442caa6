import ClassLinker.Json.Basic
import ClassLinker.Text.Bytes

set_option autoImplicit false

namespace ClassLinker

inductive Severity where
  | error | warning | lint
deriving DecidableEq, Repr

def Severity.name : Severity → String
  | .error => "error"
  | .warning => "warning"
  | .lint => "lint"

namespace Diagnostic

inductive Kind where
  | parseError | unmappedNamespace | aliasCycle | unsupportedMixin | possibleCallParentMisuse
  | callParentWithoutParent | readError
deriving DecidableEq, Repr

def Kind.name : Kind → String
  | .parseError => "parseError"
  | .unmappedNamespace => "unmappedNamespace"
  | .aliasCycle => "aliasCycle"
  | .unsupportedMixin => "unsupportedMixin"
  | .possibleCallParentMisuse => "possibleCallParentMisuse"
  | .callParentWithoutParent => "callParentWithoutParent"
  | .readError => "readError"

end Diagnostic

structure Diagnostic where
  kind : Diagnostic.Kind
  severity : Severity
  file : String
  position : Option Text.Position
  message : String
deriving DecidableEq, Repr

def Diagnostic.toJson (d : Diagnostic) : Json :=
  .object <|
    [("kind", .string d.kind.name), ("severity", .string d.severity.name), ("file", .string d.file)] ++
    (match d.position with
      | some p => [("line", .ofNat p.line), ("column", .ofNat p.column)]
      | none => []) ++
    [("message", .string d.message)]

end ClassLinker
