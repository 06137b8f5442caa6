import ClassLinker.Diagnostic

set_option autoImplicit false

namespace ClassLinker

inductive Problem where
  | syntaxError (file : String) (position : Text.Position) (message : String)
  | aliasCycle (chain : List String)
  | unmappedNamespaces (count : Nat)
  | unreadable (path : String) (message : String)
  | badConfig (message : String)
  | unserialisable (message : String)
deriving DecidableEq, Repr

namespace Problem

def message : Problem → String
  | .syntaxError file p text => s!"{file}:{p.line}:{p.column}: syntax error: {text}"
  | .aliasCycle chain => "alternate class name cycle: " ++ " -> ".intercalate chain
  | .unmappedNamespaces count => s!"{count} class reference(s) point at unmapped namespaces"
  | .unreadable path text => s!"failed to read {path}: {text}"
  | .badConfig text => s!"invalid configuration: {text}"
  | .unserialisable text => s!"failed to serialise class map: {text}"

/-- The problem as a finding about `file`. A syntax error names its own file. -/
def toDiagnostic (problem : Problem) (file : String) : Diagnostic :=
  match problem with
  | .syntaxError own position text => ⟨.parseError, .error, own, some position, text⟩
  | .aliasCycle _ => ⟨.aliasCycle, .error, file, none, problem.message⟩
  | .unmappedNamespaces _ => ⟨.unmappedNamespace, .error, file, none, problem.message⟩
  | _ => ⟨.readError, .error, file, none, problem.message⟩

end Problem

end ClassLinker
