import ClassLinker.Script.Lexeme
import ClassLinker.Script.Pattern
import ClassLinker.Script.Semicolon

set_option autoImplicit false

namespace ClassLinker.Script

inductive Goal where
  | statement
  | sequence
  | expression (level : Nat)
  | element

abbrev Rules := Goal → Reader Node

namespace Grammar

open Reader

def peekWord : Reader (List Char) := do
  return Lexeme.wordOf (← peek)

def seesWord (text : String) : Reader Bool := do
  return (← peekWord) = text.toList

def word (kind : Kind) : Reader Node := lexeme kind Lexeme.word?

def keyword (text : String) : Reader Unit := do
  require (← seesWord text)
  symbol text

def keyword? (text : String) : Reader Bool := do
  if ← seesWord text then
    symbol text
    return true
  else
    return false

def startsWord : List Char → Bool
  | [] => false
  | '\\' :: _ => true
  | c :: _ => Lexeme.isWordStart c

def startsName : List Char → Bool
  | [] => false
  | c :: rest => c = '[' || c = '#' || c = '"' || c = '\'' || c.isDigit || startsWord (c :: rest)

def peekAfter (text : String) : Reader (List Char) := do
  let c ← get
  return (c.skip.pass text.length).skip.rest

def seesEquals : Reader Bool := do
  match ← peek with
  | '=' :: '=' :: _ => return false
  | '=' :: '>' :: _ => return false
  | '=' :: _ => return true
  | _ => return false

structure Slots where
  items : List Node
  gaps : Bool
  trailing : Bool

/-- Reads entries with commas between them up to `close`. -/
def slots (close : String) (item : Reader Node) : Nat → Reader Slots
  | 0 => failure
  | n + 1 => do
    if ← symbol? close then return ⟨[], false, false⟩
    if ← symbol? "," then
      let rest ← slots close item n
      return { rest with gaps := true }
    let first ← item
    if ← symbol? close then return ⟨[first], false, false⟩
    symbol ","
    if ← symbol? close then return ⟨[first], false, true⟩
    let rest ← slots close item n
    return { rest with items := first :: rest.items }

def spread (rules : Rules) : Reader Node := do
  let start ← here
  symbol "..."
  node .spreadElement start [← rules (.expression 0)]

def entry (rules : Rules) : Reader Node := do
  if ← sees "..." then spread rules else rules (.expression 0)

def array (rules : Rules) : Reader Node := do
  let start ← here
  symbol "["
  let list ← slots "]" (entry rules) (← bound)
  node .array start list.items

def arguments (rules : Rules) : Reader Node := do
  let start ← here
  symbol "("
  let list ← slots ")" (entry rules) (← bound)
  node .arguments start list.items

def parameters (rules : Rules) : Reader Node := do
  let start ← here
  symbol "("
  let list ← slots ")" (entry rules) (← bound)
  require !list.gaps
  match Node.patterns? .binding list.items with
  | some items => node .formalParameters start items
  | none => failure

def templatePieces (rules : Rules) : Nat → Reader (List Node)
  | 0 => failure
  | n + 1 => do
    let c ← get
    match c.rest with
    | [] => failure
    | '`' :: _ =>
      set (c.pass 1)
      return []
    | '$' :: '\x7b' :: _ =>
      set (c.pass 2)
      let inner ← rules .sequence
      symbol "\x7d"
      let piece ← node .templateSubstitution c.offset [inner]
      return piece :: (← templatePieces rules n)
    | '\\' :: _ =>
      match Lexeme.escape? c.toPoint with
      | none => failure
      | some p =>
        set (c.moveTo p)
        let piece ← node .escapeSequence c.offset []
        return piece :: (← templatePieces rules n)
    | _ =>
      set (c.pass (Lexeme.templateRun c.rest))
      let piece ← node .templateText c.offset []
      return piece :: (← templatePieces rules n)

def template (rules : Rules) : Reader Node := do
  let start ← here
  symbol "`"
  let pieces ← templatePieces rules (← bound)
  node .templateString start pieces

def propertyName (rules : Rules) : Reader Node := do
  match ← peek with
  | '[' :: _ =>
    let start ← here
    symbol "["
    let inner ← rules (.expression 0)
    symbol "]"
    node .computedProperty start [inner]
  | '#' :: _ => lexeme .privateProperty Lexeme.privateName?
  | '"' :: _ => lexeme .string Lexeme.string?
  | '\'' :: _ => lexeme .string Lexeme.string?
  | c :: _ => if c.isDigit || c = '.' then lexeme .number Lexeme.number? else word .propertyIdentifier
  | [] => failure

def memberName : Reader Node := do
  if ← sees "#" then lexeme .privateProperty Lexeme.privateName? else word .propertyIdentifier

def dotted (base : Node) : Nat → Reader Node
  | 0 => failure
  | n + 1 => do
    if ← symbol? "." then
      let name ← word .propertyIdentifier
      dotted (.spanning .memberExpression base name [base, name]) n
    else return base

def decorator (rules : Rules) : Reader Node := do
  let start ← here
  symbol "@"
  let base ← word .identifier
  let callee ← dotted base (← bound)
  if ← sees "(" then
    let arguments ← arguments rules
    node .decorator start [.spanning .callExpression callee arguments [callee, arguments]]
  else
    node .decorator start [callee]

def decorators (rules : Rules) : Reader (List Node) := do
  many (do if ← sees "@" then some <$> decorator rules else return none) (← bound)

end Grammar

end ClassLinker.Script
