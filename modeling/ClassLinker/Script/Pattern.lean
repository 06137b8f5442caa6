import ClassLinker.Script.Node

set_option autoImplicit false

namespace ClassLinker.Script

inductive Place where
  | target
  | binding
  | member
deriving DecidableEq

namespace Node

mutual

def pattern? (place : Place) : Node → Option Node
  | .mk .pair s e [key, value] =>
    if place = .member then (pattern? .binding value).map fun value => .mk .pairPattern s e [key, value] else none
  | .mk kind s e children =>
    match kind with
    | .object =>
      if place = .member then none else (patterns? .member children).map (.mk .objectPattern s e)
    | .array =>
      if place = .member then none else (patterns? .binding children).map (.mk .arrayPattern s e)
    | .spreadElement =>
      if place = .target then none else (patterns? .target children).map (.mk .restPattern s e)
    | .assignmentExpression =>
      if place = .binding && children.head?.any (·.kind ≠ .parenthesizedExpression) then
        some (.mk .assignmentPattern s e children)
      else none
    | .shorthandProperty | .shorthandDefault =>
      if place = .member then some (.mk kind s e children) else none
    | .identifier | .undefined | .memberExpression | .subscriptExpression | .objectPattern | .arrayPattern =>
      if place = .member then none else some (.mk kind s e children)
    | _ => none

def patterns? (place : Place) : List Node → Option (List Node)
  | [] => some []
  | n :: rest =>
    match pattern? place n, patterns? place rest with
    | some n, some rest => some (n :: rest)
    | _, _ => none

end

def target? : Node → Option Node := pattern? .target

/-- An object literal has no default values; only a pattern has. -/
def settled (n : Node) : Bool :=
  n.kind ≠ .object || n.children.all fun member => member.kind ≠ .shorthandDefault

end Node

end ClassLinker.Script
