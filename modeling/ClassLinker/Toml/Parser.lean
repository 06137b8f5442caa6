import ClassLinker.Toml.Scalar
import ClassLinker.Toml.Section

set_option autoImplicit false

namespace ClassLinker.Toml

open Json (Scan)

def isKeyChar (c : Char) : Bool := c.isAlphanum || c = '_' || c = '-'

def simpleKey? (cs : List Char) : Option (String × List Char) :=
  match cs with
  | [] => none
  | quote :: rest =>
    if quote = '"' || quote = '\'' then lineString quote (rest.length + 1) [] rest
    else
      let name := cs.takeWhile isKeyChar
      if name.isEmpty then none else some (String.ofList name, cs.drop name.length)

def keyPath : Nat → Scan (List String)
  | 0, _ => none
  | n + 1, cs => do
    let (name, rest) ← simpleKey? (skipBlanks cs)
    match skipBlanks rest with
    | '.' :: rest => do
      let (more, rest) ← keyPath n rest
      return (name :: more, rest)
    | rest => return ([name], rest)

def key? (cs : List Char) : Option (List String × List Char) := keyPath (cs.length + 1) cs

def comment? (cs : List Char) : Option (List Char) :=
  match cs with
  | '#' :: rest =>
    let rest := rest.dropWhile isPlain
    if rest.isEmpty || (newline? rest).isSome then some rest else none
  | rest => some rest

def skipLines : Nat → List Char → Option (List Char)
  | 0, _ => none
  | n + 1, cs => do
    let rest ← comment? (skipBlanks cs)
    match newline? rest with
    | some rest => skipLines n rest
    | none => return rest

def skipLayout? (cs : List Char) : Option (List Char) := skipLines (cs.length + 1) cs

def arrayItems (item : Scan Json) : Nat → List Json → Scan (List Json)
  | 0, _, _ => none
  | n + 1, done, cs => do
    match ← skipLayout? cs with
    | ']' :: rest => return (done.reverse, rest)
    | cs =>
      let (value, rest) ← item cs
      match ← skipLayout? rest with
      | ',' :: rest => arrayItems item n (value :: done) rest
      | ']' :: rest => return ((value :: done).reverse, rest)
      | _ => none

def inlineMembers (item : Scan Json) : Nat → Section → Scan Section
  | 0, _, _ => none
  | n + 1, done, cs => do
    match ← skipLayout? cs with
    | '\x7d' :: rest => return (done, rest)
    | cs =>
      let (path, rest) ← key? cs
      let rest ← char? '=' rest
      let (value, rest) ← item (skipBlanks rest)
      let done ← Section.assign value path true done
      match ← skipLayout? rest with
      | ',' :: rest => inlineMembers item n done rest
      | '\x7d' :: rest => return (done, rest)
      | _ => none

def value? : Nat → Scan Json
  | 0, _ => none
  | n + 1, cs =>
    match cs with
    | '[' :: rest => (arrayItems (value? n) (rest.length + 1) [] rest).map fun (items, rest) => (.array items, rest)
    | '\x7b' :: rest =>
      (inlineMembers (value? n) (rest.length + 1) [] rest).map fun (members, rest) => (members.toJson, rest)
    | '"' :: _ | '\'' :: _ => (string? cs).map fun (s, rest) => (.string s, rest)
    | cs => scalar? cs

structure Draft where
  tables : Section
  current : List String

def lastName? (path : List String) : Option (List String × String) :=
  path.getLast?.map fun name => (path.dropLast, name)

def line? (draft : Draft) (cs : List Char) : Option (Draft × List Char) :=
  match skipBlanks cs with
  | '[' :: '[' :: rest => do
    let (path, rest) ← key? rest
    let rest ← char? ']' rest
    let rest ← char? ']' rest
    let (outer, name) ← lastName? path
    let tables ← Section.modifyAt (Section.openItem name) outer draft.tables
    return (⟨tables, path⟩, rest)
  | '[' :: rest => do
    let (path, rest) ← key? rest
    let rest ← char? ']' rest
    let (outer, name) ← lastName? path
    let tables ← Section.modifyAt (Section.openTable name) outer draft.tables
    return (⟨tables, path⟩, rest)
  | cs =>
    if cs.isEmpty || cs.head? = some '#' || (newline? cs).isSome then some (draft, cs)
    else do
      let (path, rest) ← key? cs
      let rest ← char? '=' rest
      let (value, rest) ← value? (rest.length + 1) (skipBlanks rest)
      let tables ← Section.modifyAt (Section.assign value path true) draft.current draft.tables
      return ({ draft with tables }, rest)

def lines : Nat → Draft → List Char → Option Section
  | 0, _, _ => none
  | n + 1, draft, cs => do
    let (draft, rest) ← line? draft cs
    let rest ← comment? (skipBlanks rest)
    match newline? rest with
    | some rest => lines n draft rest
    | none => if rest.isEmpty then return draft.tables else none

def parse? (text : String) : Option Json :=
  let cs := match text.toList with
    | '\ufeff' :: rest => rest
    | cs => cs
  (lines (cs.length + 1) ⟨[], []⟩ cs).map Section.toJson

end ClassLinker.Toml
