import ClassLinker.Descriptor
import ClassLinker.Problem
import ClassLinker.Script.Tree

set_option autoImplicit false

namespace ClassLinker

namespace Script.Tree

def snippet (source : List Char) : String :=
  "unexpected `" ++ String.ofList (Text.trimmed (source.take 24)) ++ "`"

/-- The tree of a source. A source that is no program is refused as a whole, at its start. -/
def parse (file source : String) : Except Problem Tree :=
  match ofSource? source.toList with
  | some tree => .ok tree
  | none => .error (.syntaxError file .start (snippet source.toList))

/-- The text inside the quotes of a string, or of a template without substitutions. -/
def stringValue? (t : Tree) (n : Node) : Option String :=
  let inner := String.ofList (Text.slice t.source (n.start + 1) (n.stop - 1))
  match n.kind with
  | .string => some inner
  | .templateString => if n.children.any (·.kind = .templateSubstitution) then none else some inner
  | _ => none

def propertyKey? (t : Tree) (n : Node) : Option String :=
  match n.kind with
  | .propertyIdentifier | .identifier | .privateProperty | .number => some (t.text n)
  | .string => t.stringValue? n
  | _ => none

def stringList (t : Tree) (n : Node) : List String :=
  if n.kind = .array then n.children.filterMap t.stringValue? else (t.stringValue? n).toList

def staticImports (t : Tree) : List String :=
  t.root.children.filterMap fun n =>
    if n.kind = .importStatement then (n.children.find? (·.kind = .string)).bind t.stringValue? else none

end Script.Tree

open Script (Node Tree)

structure DefineCall where
  call : Node
  arguments : List Node

def Script.Tree.defineCall? (t : Tree) (systems : List String) (statement : Node) : Option DefineCall :=
  match statement with
  | .mk .expressionStatement _ _ (.mk .callExpression s e [callee, arguments] :: _) =>
    match callee with
    | .mk .memberExpression _ _ [object, property] =>
      if object.kind = .identifier && systems.contains (t.text object) && t.text property = "define" then
        some ⟨.mk .callExpression s e [callee, arguments], arguments.children⟩
      else none
    | _ => none
  | _ => none

def Script.Tree.defineCalls (t : Tree) (systems : List String) : List DefineCall :=
  t.root.children.filterMap (t.defineCall? systems)

structure ClassDefinition where
  descriptor : Descriptor
  config : Node
  diagnostics : List Diagnostic

structure Gathered where
  descriptor : Descriptor
  diagnostics : List Diagnostic

namespace Gathered

def mixinName? (t : Tree) (entry : Node) : Option String :=
  match entry with
  | .mk .pair _ _ [_, value] => t.stringValue? value
  | _ => none

def unsupportedMixin (t : Tree) (d : Descriptor) (entry : Node) : Diagnostic :=
  ⟨.unsupportedMixin, .warning, d.sourceFile, some (Text.positionAt t.source entry.start),
   s!"{d.name}: mixin `" ++ t.text entry ++ "` is not a class name string and was not imported"⟩

def mixin (t : Tree) (g : Gathered) (entry : Node) : Gathered :=
  match mixinName? t entry with
  | some name => { g with descriptor := { g.descriptor with mixins := pushUnique g.descriptor.mixins name } }
  | none => { g with diagnostics := g.diagnostics ++ [unsupportedMixin t g.descriptor entry] }

def property (t : Tree) (g : Gathered) (key : String) (value : Node) : Gathered :=
  let d := g.descriptor
  match key with
  | "alias" => { g with descriptor := { d with shortName := (t.stringList value).head? } }
  | "alternateClassName" =>
    { g with descriptor := { d with alternateNames := extendUnique d.alternateNames (t.stringList value) } }
  | "extend" => { g with descriptor := { d with parent := t.stringValue? value } }
  | "override" => { g with descriptor := { d with overrideTarget := t.stringValue? value } }
  | "requires" => { g with descriptor := { d with requires := extendUnique d.requires (t.stringList value) } }
  | "uses" => { g with descriptor := { d with uses := extendUnique d.uses (t.stringList value) } }
  | "mixins" =>
    if value.kind = .object then value.children.foldl (mixin t) g
    else { g with descriptor := { d with mixins := extendUnique d.mixins (t.stringList value) } }
  | _ => g

def member (t : Tree) (g : Gathered) (n : Node) : Gathered :=
  match n with
  | .mk .pair _ _ [key, value] =>
    match t.propertyKey? key with
    | some key => property t g key value
    | none => g
  | _ => g

end Gathered

namespace ClassDefinition

/-- The class that a call defines: its first argument names it, its second is an object literal. Other calls
define none. -/
def ofCall? (t : Tree) (file : String) (call : DefineCall) : Option ClassDefinition :=
  match call.arguments with
  | nameNode :: config :: _ =>
    match t.stringValue? nameNode with
    | none => none
    | some name =>
      if name = "" || config.kind ≠ .object then none
      else
        let start : Gathered := ⟨{ name := name, sourceFile := file }, []⟩
        let g := config.children.foldl (Gathered.member t) start
        some ⟨g.descriptor, config, g.diagnostics⟩
  | _ => none

def all (t : Tree) (systems : List String) (file : String) : List ClassDefinition :=
  (t.defineCalls systems).filterMap (ofCall? t file)

end ClassDefinition

end ClassLinker
