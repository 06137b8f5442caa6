import ClassLinker.Script.Grammar.Literal

set_option autoImplicit false

namespace ClassLinker.Script.Grammar

open Reader

def markupName : Reader Node := lexeme .identifier Lexeme.markupName?

def elementName : Reader Node := do
  let first ← markupName
  if ← symbol? ":" then
    let second ← markupName
    return .spanning .jsxNamespaceName first second [first, second]
  dotted first (← bound)

def embedded (rules : Rules) : Reader Node := do
  let start ← here
  symbol "\x7b"
  if ← symbol? "\x7d" then node .jsxExpression start []
  else
    let inner ← if ← sees "..." then spread rules else rules .sequence
    symbol "\x7d"
    node .jsxExpression start [inner]

def attributeValue (rules : Rules) : Reader Node := do
  match ← peek with
  | '\x7b' :: _ => embedded rules
  | '<' :: _ => rules .element
  | _ => lexeme .string Lexeme.markupString?

def attributeName : Reader Node := do
  let name ← markupName
  if ← symbol? ":" then
    let second ← markupName
    return .spanning .jsxNamespaceName name second [name, second]
  else return name.withKind .propertyIdentifier

def tagAttribute (rules : Rules) : Reader Node := do
  if ← sees "\x7b" then embedded rules
  else
    let start ← here
    let name ← attributeName
    if ← symbol? "=" then node .jsxAttribute start [name, ← attributeValue rules]
    else node .jsxAttribute start [name]

def tagAttributes (rules : Rules) : Reader (List Node) := do
  many (do
    match ← peek with
    | '>' :: _ => return none
    | '/' :: _ => return none
    | _ => some <$> tagAttribute rules) (← bound)

def closingTag : Reader Node := do
  let start ← here
  symbol "</"
  if ← symbol? ">" then node .jsxClosing start []
  else
    let name ← elementName
    symbol ">"
    node .jsxClosing start [name]

def content (rules : Rules) : Nat → Reader (List Node)
  | 0 => failure
  | n + 1 => do
    let c ← get
    match Lexeme.text? c.toPoint with
    | some p =>
      set (c.moveTo p)
      let piece ← node .jsxText c.offset []
      return piece :: (← content rules n)
    | none =>
      match ← peek with
      | '<' :: '/' :: _ => return []
      | '<' :: _ =>
        let piece ← rules .element
        return piece :: (← content rules n)
      | '\x7b' :: _ =>
        let piece ← embedded rules
        return piece :: (← content rules n)
      | _ =>
        let piece ← lexeme .jsxReference Lexeme.reference?
        return piece :: (← content rules n)

def element (rules : Rules) : Reader Node := do
  let start ← here
  symbol "<"
  if ← symbol? ">" then
    inside start (← node .jsxOpening start [])
  else
    let name ← elementName
    let attributes ← tagAttributes rules
    if ← symbol? "/>" then node .jsxSelfClosing start (name :: attributes)
    else
      symbol ">"
      inside start (← node .jsxOpening start (name :: attributes))
where
  inside (start : Nat) (opening : Node) : Reader Node := do
    let pieces ← content rules (← bound)
    let closing ← closingTag
    node .jsxElement start (opening :: pieces ++ [closing])

end ClassLinker.Script.Grammar
