set_option autoImplicit false

namespace ClassLinker.Script

inductive Kind where
  | program | hashBang
  | expressionStatement | variableDeclaration | lexicalDeclaration | variableDeclarator
  | functionDeclaration | generatorDeclaration | classDeclaration
  | statementBlock | ifStatement | elseClause | switchStatement | switchBody | switchCase | switchDefault
  | forStatement | forInStatement | whileStatement | doStatement | tryStatement | catchClause | finallyClause
  | withStatement | breakStatement | continueStatement | debuggerStatement | returnStatement | throwStatement
  | emptyStatement | labeledStatement | statementLabel
  | importStatement | importClause | namespaceImport | namedImports | importSpecifier | importAttribute
  | exportStatement | namespaceExport | exportClause | exportSpecifier
  | sequenceExpression | assignmentExpression | augmentedAssignment | awaitExpression | unaryExpression
  | binaryExpression | ternaryExpression | updateExpression | newExpression | yieldExpression
  | subscriptExpression | memberExpression | parenthesizedExpression | callExpression | arguments
  | identifier | this | super | number | string | regex | true | false | null | undefined | importCallee
  | templateString | templateText | escapeSequence | templateSubstitution
  | object | pair | methodDefinition | shorthandProperty | shorthandDefault | spreadElement
  | propertyIdentifier | privateProperty | computedProperty
  | array | functionExpression | generatorFunction | arrowFunction | formalParameters
  | objectPattern | arrayPattern | pairPattern | assignmentPattern | restPattern
  | classExpression | classHeritage | classBody | fieldDefinition | staticBlock | decorator | metaProperty
  | jsxElement | jsxSelfClosing | jsxOpening | jsxClosing | jsxText | jsxReference | jsxExpression
  | jsxAttribute | jsxNamespaceName
deriving DecidableEq, Repr

inductive Node where
  | mk (kind : Kind) (start stop : Nat) (children : List Node)
deriving Repr

namespace Node

def kind : Node → Kind
  | .mk k _ _ _ => k

def start : Node → Nat
  | .mk _ s _ _ => s

def stop : Node → Nat
  | .mk _ _ e _ => e

def children : Node → List Node
  | .mk _ _ _ cs => cs

def withKind (k : Kind) : Node → Node
  | .mk _ s e cs => .mk k s e cs

@[simp] theorem kind_withKind (k : Kind) (n : Node) : (n.withKind k).kind = k := by cases n; rfl
@[simp] theorem start_withKind (k : Kind) (n : Node) : (n.withKind k).start = n.start := by cases n; rfl
@[simp] theorem stop_withKind (k : Kind) (n : Node) : (n.withKind k).stop = n.stop := by cases n; rfl
@[simp] theorem children_withKind (k : Kind) (n : Node) :
    (n.withKind k).children = n.children := by cases n; rfl

def spanning (kind : Kind) (first last : Node) (children : List Node) : Node :=
  .mk kind first.start last.stop children

mutual

def all (p : Node → Bool) : Node → Bool
  | .mk k s e cs => p (.mk k s e cs) && allOf p cs

def allOf (p : Node → Bool) : List Node → Bool
  | [] => Bool.true
  | n :: rest => all p n && allOf p rest

end

mutual

def same : Node → Node → Bool
  | .mk k s e cs, .mk k' s' e' cs' => k = k' && s = s' && e = e' && sameAll cs cs'

def sameAll : List Node → List Node → Bool
  | [], [] => Bool.true
  | n :: rest, n' :: rest' => same n n' && sameAll rest rest'
  | _, _ => Bool.false

end

mutual

/-- Nodes lie inside their parents, and siblings follow each other without overlap. -/
def placed (lo hi : Nat) : Node → Bool
  | .mk _ s e cs => lo ≤ s && s ≤ e && e ≤ hi && placedIn s e cs

def placedIn (lo hi : Nat) : List Node → Bool
  | [] => Bool.true
  | .mk k s e cs :: rest => placed lo hi (.mk k s e cs) && placedIn e hi rest

end

end Node

end ClassLinker.Script
