import ClassLinker.Script.Grammar.Member
import ClassLinker.Script.Grammar.Markup

set_option autoImplicit false

namespace ClassLinker.Script.Grammar

open Reader

structure Operator where
  spelling : String
  level : Nat
  rightward : Bool

def conditionalLevel : Nat := 2

def relationLevel : Nat := 9

def unaryLevel : Nat := 14

def operators : List Operator :=
  [⟨">>>", 10, false⟩, ⟨"===", 8, false⟩, ⟨"!==", 8, false⟩, ⟨">>", 10, false⟩, ⟨"<<", 10, false⟩,
   ⟨"**", 13, true⟩, ⟨"&&", 4, false⟩, ⟨"||", 3, false⟩, ⟨"??", conditionalLevel, false⟩, ⟨"==", 8, false⟩,
   ⟨"!=", 8, false⟩, ⟨"<=", relationLevel, false⟩, ⟨">=", relationLevel, false⟩, ⟨"<", relationLevel, false⟩,
   ⟨">", relationLevel, false⟩, ⟨"+", 11, false⟩, ⟨"-", 11, false⟩, ⟨"*", 12, false⟩, ⟨"/", 12, false⟩,
   ⟨"%", 12, false⟩, ⟨"&", 7, false⟩, ⟨"^", 6, false⟩, ⟨"|", 5, false⟩]

def wordOperators : List Operator := [⟨"in", relationLevel, false⟩, ⟨"instanceof", relationLevel, false⟩]

def assignments : List String :=
  [">>>=", "**=", "<<=", ">>=", "&&=", "||=", "??=", "+=", "-=", "*=", "/=", "%=", "^=", "&=", "|="]

def operatorAt (cs : List Char) : Option Operator :=
  match cs with
  | '+' :: '+' :: _ => none
  | '-' :: '-' :: _ => none
  | _ =>
    let text := Lexeme.wordOf cs
    if text.isEmpty then operators.find? fun op => op.spelling.toList.isPrefixOf cs
    else wordOperators.find? fun op => op.spelling.toList = text

def assignmentAt (cs : List Char) : Option String :=
  assignments.find? fun text => text.toList.isPrefixOf cs

def isConditional : List Char → Bool
  | '?' :: '?' :: _ => false
  | '?' :: '.' :: rest => rest.head?.any Char.isDigit
  | '?' :: _ => true
  | _ => false

def arrowBody (rules : Rules) : Reader Node := do
  if ← sees "\x7b" then functionBody rules true else rules (.expression 0)

def arrowFrom (rules : Rules) (start : Nat) (parameters : Node) : Reader Node := do
  symbol "=>"
  node .arrowFunction start [parameters, ← arrowBody rules]

def parenthesized (rules : Rules) : Reader Node := do
  let start ← here
  symbol "("
  let list ← slots ")" (entry rules) (← bound)
  require !list.gaps
  let whole ← node .parenthesizedExpression start list.items
  if ← sees "=>" then
    match Node.patterns? .binding list.items with
    | some items => arrowFrom rules start (.mk .formalParameters whole.start whole.stop items)
    | none => failure
  else
    require (!list.trailing && list.items.all (·.kind ≠ .spreadElement))
    match list.items with
    | [] => failure
    | [_] => return whole
    | first :: second :: rest =>
      let last := (second :: rest).getLast (by simp)
      let inner := Node.spanning .sequenceExpression first last list.items
      return .mk .parenthesizedExpression whole.start whole.stop [inner]

def asynchronous (rules : Rules) : Reader Node := do
  let name ← word .identifier
  if ← sees "(" then
    let start ← here
    symbol "("
    let list ← slots ")" (entry rules) (← bound)
    let arguments ← node .arguments start list.items
    if ← sees "=>" then
      require !list.gaps
      match Node.patterns? .binding list.items with
      | some items => arrowFrom rules name.start (.mk .formalParameters arguments.start arguments.stop items)
      | none => failure
    else node .callExpression name.start [name, arguments]
  else if ← sees "=>" then arrowFrom rules name.start name
  else if ← seesHiddenSemicolon true then return name
  else if ← seesWord "function" then functionFrom rules name.start
  else if startsWord (← peek) && (operatorAt (← peek)).isNone && !(← seesWord "of") then
    let parameter ← word .identifier
    arrowFrom rules name.start parameter
  else return name

def importOperand : Reader Node := do
  let callee ← word .importCallee
  if ← sees "(" then return callee
  symbol "."
  let name ← word .propertyIdentifier
  node (if name.stop - name.start = 4 then .metaProperty else .memberExpression) callee.start [callee, name]

def literalWords : List (String × Kind) :=
  [("this", .this), ("super", .super), ("true", .true), ("false", .false), ("null", .null),
   ("undefined", .undefined)]

def wordOperand (rules : Rules) : Reader Node := do
  let start ← here
  let text ← peekWord
  match literalWords.find? fun entry => entry.1.toList = text with
  | some (_, kind) => word kind
  | none =>
    if text = "function".toList then functionFrom rules start
    else if text = "class".toList then classFrom rules .classExpression start []
    else if text = "import".toList then importOperand
    else if text = "async".toList then asynchronous rules
    else
      let name ← word .identifier
      if ← sees "=>" then arrowFrom rules start name else return name

def privateOperand : Reader Node := do
  let name ← lexeme .privateProperty Lexeme.privateName?
  require (← seesWord "in")
  return name

def simpleOperand (rules : Rules) : Reader Node := do
  match ← peek with
  | [] => failure
  | '(' :: _ => parenthesized rules
  | '[' :: _ => array rules
  | '\x7b' :: _ => object rules
  | '"' :: _ => lexeme .string Lexeme.string?
  | '\'' :: _ => lexeme .string Lexeme.string?
  | '`' :: _ => template rules
  | '/' :: _ => lexeme .regex Lexeme.regex?
  | '<' :: _ => rules .element
  | '#' :: _ => privateOperand
  | '@' :: _ =>
    let start ← here
    let marks ← decorators rules
    classFrom rules .classExpression start marks
  | c :: _ => if c.isDigit || c = '.' then lexeme .number Lexeme.number? else wordOperand rules

def subscript (rules : Rules) (base : Node) : Reader Node := do
  symbol "["
  let index ← rules .sequence
  symbol "]"
  node .subscriptExpression base.start [base, index]

def attached (rules : Rules) (calls : Bool) (base : Node) : Nat → Reader Node
  | 0 => failure
  | n + 1 => do
    match ← peek with
    | '?' :: '.' :: c :: _ =>
      if c.isDigit then return base
      symbol "?."
      if ← sees "(" then
        let arguments ← arguments rules
        attached rules calls (.spanning .callExpression base arguments [base, arguments]) n
      else if ← sees "[" then attached rules calls (← subscript rules base) n
      else
        let name ← memberName
        attached rules calls (.spanning .memberExpression base name [base, name]) n
    | '.' :: _ =>
      symbol "."
      let name ← memberName
      attached rules calls (.spanning .memberExpression base name [base, name]) n
    | '[' :: _ => attached rules calls (← subscript rules base) n
    | '`' :: _ =>
      let text ← template rules
      attached rules calls (.spanning .callExpression base text [base, text]) n
    | '(' :: _ =>
      if calls then
        let arguments ← arguments rules
        attached rules calls (.spanning .callExpression base arguments [base, arguments]) n
      else return base
    | _ => return base

def constructed (rules : Rules) (start : Nat) (base : Node) : Reader Node := do
  let callee ← attached rules false base (← bound)
  if ← sees "(" then node .newExpression start [callee, ← arguments rules]
  else node .newExpression start [callee]

def construction (rules : Rules) : Nat → Reader Node
  | 0 => failure
  | n + 1 => do
    let start ← here
    keyword "new"
    if ← symbol? "." then
      keyword "target"
      node .metaProperty start []
    else if ← seesWord "new" then constructed rules start (← construction rules n)
    else constructed rules start (← simpleOperand rules)

def baseOperand (rules : Rules) : Reader Node := do
  if ← seesWord "new" then construction rules (← bound) else simpleOperand rules

def accessOperand (rules : Rules) : Reader Node := do
  let base ← baseOperand rules
  let whole ← attached rules true base (← bound)
  if (← sees "++") || (← sees "--") then
    if ← seesHiddenSemicolon true then return whole
    if ← sees "++" then symbol "++" else symbol "--"
    node .updateExpression whole.start [whole]
  else return whole

def assignedTo (rules : Rules) (left : Node) : Reader Node := do
  if ← seesEquals then
    symbol "="
    let target := if left.kind = .parenthesizedExpression then some left else left.target?
    match target with
    | some target => node .assignmentExpression left.start [target, ← rules (.expression 0)]
    | none => failure
  else
    match assignmentAt (← peek) with
    | none => return left
    | some text =>
      require ([.identifier, .memberExpression, .subscriptExpression, .parenthesizedExpression].contains left.kind)
      symbol text
      node .augmentedAssignment left.start [left, ← rules (.expression 0)]

def prefixWords : List String := ["typeof", "void", "delete", "await"]

/-- Whether an expression may start here, as far as the first character tells. -/
def startsExpression : List Char → Bool
  | [] => false
  | cs =>
    let text := Lexeme.wordOf cs
    !(cs.head?.any fun c => ")]\x7d;,:=?".toList.contains c) && text ≠ "in".toList && text ≠ "of".toList &&
      text ≠ "instanceof".toList

def yielded (rules : Rules) : Reader Node := do
  let start ← here
  keyword "yield"
  if ← symbol? "*" then node .yieldExpression start [← rules (.expression 0)]
  else if ← seesHiddenSemicolon false then node .yieldExpression start []
  else if startsExpression (← peek) then node .yieldExpression start [← rules (.expression 0)]
  else node .yieldExpression start []

def operand (rules : Rules) : Reader Node := do
  let start ← here
  let text ← peekWord
  match prefixWords.find? fun spelling => spelling.toList = text with
  | some spelling =>
    symbol spelling
    let inner ← rules (.expression unaryLevel)
    node (if spelling = "await" then .awaitExpression else .unaryExpression) start [inner]
  | none =>
    if text = "yield".toList then yielded rules
    else if (← symbol? "++") || (← symbol? "--") then
      node .updateExpression start [← rules (.expression unaryLevel)]
    else if (← symbol? "!") || (← symbol? "~") || (← symbol? "+") || (← symbol? "-") then
      node .unaryExpression start [← rules (.expression unaryLevel)]
    else assignedTo rules (← accessOperand rules)

def operated (rules : Rules) (level : Nat) (left : Node) : Nat → Reader Node
  | 0 => failure
  | n + 1 => do
    let next ← peek
    if isConditional next then
      if conditionalLevel < level then return left
      symbol "?"
      let yes ← rules (.expression 0)
      symbol ":"
      let no ← rules (.expression 0)
      operated rules level (.spanning .ternaryExpression left no [left, yes, no]) n
    else
      match operatorAt next with
      | none => return left
      | some op =>
        if op.level < level then return left
        symbol op.spelling
        let right ← rules (.expression (if op.rightward then op.level else op.level + 1))
        operated rules level (.spanning .binaryExpression left right [left, right]) n

def expression (rules : Rules) (level : Nat) : Reader Node := do
  let left ← operand rules
  operated rules level left (← bound)

def moreExpressions (rules : Rules) : Reader (List Node) := do
  many (do if ← symbol? "," then some <$> rules (.expression 0) else return none) (← bound)

def sequence (rules : Rules) : Reader Node := do
  let first ← rules (.expression 0)
  match ← moreExpressions rules with
  | [] => return first
  | rest => node .sequenceExpression first.start (first :: rest)

end ClassLinker.Script.Grammar
