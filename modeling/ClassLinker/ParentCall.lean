import ClassLinker.Definition

set_option autoImplicit false

/-!
Calls of a parent's method. In the methods of a class, `scope.callParent(arguments)` becomes an explicit call of
the method of the same name on the parent's prototype, or on the parent itself for static methods.
-/

namespace ClassLinker.ParentCall

open Script (Node Tree)

inductive Side where
  | prototype
  | static
deriving DecidableEq, Repr

inductive Parent where
  | extended (name : String)
  | overridden (name : String)
deriving DecidableEq, Repr

namespace Parent

def ofDescriptor? (d : Descriptor) : Option Parent :=
  match d.parent, d.overrideTarget with
  | some name, _ => some (.extended name)
  | none, some name => some (.overridden name)
  | none, none => none

def owner (name : String) : Side → String
  | .prototype => s!"({name}.prototype || {name})"
  | .static => name

def lookup (parent : Parent) (method : String) (side : Side) : String :=
  match parent with
  | .extended name => s!"{owner name side}['{method}']"
  | .overridden name =>
    let own := s!"{owner name side}['{method}']"
    s!"({own}['$previous'] || {own})"

end Parent

inductive Passed where
  | list (nodes : List Node)
  | verbatim (nodes : List Node)

namespace Passed

def nodes : Passed → List Node
  | .list ns => ns
  | .verbatim ns => ns

def isVerbatim : Passed → Bool
  | .list _ => false
  | .verbatim _ => true

def ofArguments (t : Tree) : List Node → Passed
  | [] => .list []
  | [only] =>
    if only.kind = .identifier && t.text only = "arguments" then .list [only]
    else if only.kind = .spreadElement then .list [only]
    else if only.kind = .array then .list only.children
    else .verbatim [only]
  | many => .verbatim many

end Passed

structure Method where
  name : String
  side : Side
  body : Node

structure Site where
  node : Node
  receiver : Node
  passed : Passed
  method : String
  side : Side

namespace Site

def start (s : Site) : Nat := s.node.start
def stop (s : Site) : Nat := s.node.stop

def ofNode? (t : Tree) (m : Method) (n : Node) : Option Site :=
  match n with
  | .mk .callExpression s e [.mk .memberExpression s' e' [receiver, property], arguments] =>
    if t.text property = "callParent" then
      some ⟨.mk .callExpression s e [.mk .memberExpression s' e' [receiver, property], arguments], receiver,
        Passed.ofArguments t arguments.children, m.name, m.side⟩
    else none
  | _ => none

mutual

/-- The call sites below a node: a site before those inside it, later siblings before earlier ones. -/
def below (t : Tree) (m : Method) : Node → List Site
  | .mk k s e cs => (ofNode? t m (.mk k s e cs)).toList ++ belowAll t m cs

def belowAll (t : Tree) (m : Method) : List Node → List Site
  | [] => []
  | n :: rest => belowAll t m rest ++ below t m n

end

def before (a b : Site) : Bool :=
  a.start < b.start || (a.start = b.start && b.stop ≤ a.stop)

/-- The given sites in source order, a node that follows itself only once. -/
def arrange (found : List Site) : List Site :=
  (found.mergeSort before).eraseRepsBy fun a b => a.node.same b.node

end Site

def isFunction (n : Node) : Bool :=
  n.kind = .functionExpression || n.kind = .arrowFunction || n.kind = .generatorFunction

def isPropertyName (n : Node) : Bool :=
  n.kind = .propertyIdentifier || n.kind = .privateProperty || n.kind = .string || n.kind = .number ||
    n.kind = .computedProperty

mutual

def methodsOf (t : Tree) (side : Side) : Node → List Method
  | .mk .pair _ _ [key, .mk kind s e members] =>
    match t.propertyKey? key with
    | none => []
    | some name =>
      if isFunction (.mk kind s e members) then [⟨name, side, .mk kind s e members⟩]
      else if kind = .object && side = .prototype then
        if name = "privates" then methodsIn t side members
        else if name = "statics" || name = "inheritableStatics" then methodsIn t .static members
        else []
      else []
  | .mk .methodDefinition s e children =>
    match (children.find? isPropertyName).bind t.propertyKey? with
    | some name => [⟨name, side, .mk .methodDefinition s e children⟩]
    | none => []
  | _ => []

def methodsIn (t : Tree) (side : Side) : List Node → List Method
  | [] => []
  | n :: rest => methodsOf t side n ++ methodsIn t side rest

end

def sitesOf (t : Tree) (c : ClassDefinition) : List Site :=
  (methodsIn t .prototype c.config.children).flatMap fun m => Site.below t m m.body

structure Edit where
  start : Nat
  stop : Nat
  text : List Char
deriving DecidableEq

def Edit.apply (e : Edit) (code : List Char) : List Char :=
  Text.takeBytes e.start code ++ e.text ++ Text.dropBytes e.stop code

def Edit.before (a b : Edit) : Bool := a.start ≤ b.start

def applyEdits (edits : List Edit) (code : List Char) : List Char :=
  edits.foldr Edit.apply code

def replacement (parent : Parent) (s : Site) (scope : List Char) (arguments : List (List Char)) : List Char :=
  (parent.lookup s.method s.side).toList ++ ".apply(".toList ++ scope ++
    arguments.flatMap (", ".toList ++ ·) ++ [')']

/-- The text between two offsets with the outermost of the given sites in it replaced. -/
def spanText (source : List Char) (render : Site → List Char) (stop : Nat) : Nat → List Site → List Char
  | cursor, [] => Text.slice source cursor stop
  | cursor, s :: rest =>
    if cursor ≤ s.start && s.stop ≤ stop then
      Text.slice source cursor s.start ++ render s ++ spanText source render stop s.stop rest
    else spanText source render stop cursor rest

/-- What a site becomes, the sites inside it replaced as well; `n` bounds how deep sites nest. -/
def renderSite (source : List Char) (parent : Parent) (sites : List Site) : Nat → Site → List Char
  | 0, _ => []
  | n + 1, s =>
    let inner (part : Node) := spanText source (renderSite source parent sites n) part.stop part.start sites
    replacement parent s (inner s.receiver) (s.passed.nodes.map inner)

def outermostEdits (render : Site → List Char) : Nat → List Site → List Edit
  | _, [] => []
  | cursor, s :: rest =>
    if s.start < cursor then outermostEdits render cursor rest
    else ⟨s.start, s.stop, render s⟩ :: outermostEdits render s.stop rest

structure Substitution where
  code : String
  replaced : Nat
  diagnostics : List Diagnostic
deriving DecidableEq, Repr

def Substitution.changed (r : Substitution) : Bool := 0 < r.replaced

def orphanFinding (t : Tree) (file : String) (d : Descriptor) (s : Site) : Diagnostic :=
  ⟨.callParentWithoutParent, .warning, file, some (Text.positionAt t.source s.start),
   s!"{d.name}.{s.method} calls callParent but the class has neither extend nor override"⟩

def misuseFinding (t : Tree) (file : String) (d : Descriptor) (s : Site) : Diagnostic :=
  ⟨.possibleCallParentMisuse, .lint, file, some (Text.positionAt t.source s.start),
   s!"{d.name}.{s.method}: callParent expects an array or `arguments`; `" ++ t.text s.node ++
     "` passed through unchanged"⟩

structure ClassEdits where
  edits : List Edit
  replaced : Nat
  diagnostics : List Diagnostic

def classEdits (t : Tree) (file : String) (c : ClassDefinition) : ClassEdits :=
  let found := sitesOf t c
  match Parent.ofDescriptor? c.descriptor with
  | none => ⟨[], 0, found.map (orphanFinding t file c.descriptor)⟩
  | some parent =>
    let sites := Site.arrange found
    ⟨outermostEdits (renderSite t.source parent sites sites.length) 0 sites, sites.length,
     (sites.filter (·.passed.isVerbatim)).map (misuseFinding t file c.descriptor)⟩

def substitute (t : Tree) (file : String) (classes : List ClassDefinition) : Substitution :=
  let parts := classes.map (classEdits t file)
  { code := String.ofList (applyEdits ((parts.flatMap (·.edits)).mergeSort Edit.before) t.source)
    replaced := parts.foldl (fun n part => n + part.replaced) 0
    diagnostics := parts.flatMap (·.diagnostics) }

end ClassLinker.ParentCall
