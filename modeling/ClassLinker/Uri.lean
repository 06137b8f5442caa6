import ClassLinker.Json.Parser
import ClassLinker.Text.Parts
import ClassLinker.Text.Utf8

set_option autoImplicit false

namespace ClassLinker

structure Uri where
  host : Option String
  segments : Option (List (List Char))

namespace Uri

inductive Fault where
  | relative
  | emptyHost
deriving DecidableEq, Repr

def Fault.message : Fault → String
  | .relative => "relative URL without a base"
  | .emptyHost => "empty host"

def isControl (c : Char) : Bool := c.toNat ≤ 32

def cleaned (cs : List Char) : List Char :=
  let cs := ((cs.dropWhile isControl).reverse.dropWhile isControl).reverse
  cs.filter fun c => c ≠ '\t' && c ≠ '\n' && c ≠ '\r'

def isSchemeChar (c : Char) : Bool := c.isAlphanum || c = '+' || c = '-' || c = '.'

def scheme? (cs : List Char) : Option (String × List Char) :=
  let name := cs.takeWhile isSchemeChar
  match name.head?, cs.drop name.length with
  | some first, ':' :: rest => if first.isAlpha then some (String.ofList (name.map Char.toLower), rest) else none
  | _, _ => none

def isSpecial (scheme : String) : Bool := ["http", "https", "ws", "wss", "ftp", "file"].contains scheme

def isDots (dots : List Char) (segment : List Char) : Bool :=
  plainDots segment == dots
where
  plainDots : List Char → List Char
    | '%' :: '2' :: 'e' :: rest | '%' :: '2' :: 'E' :: rest => '.' :: plainDots rest
    | c :: rest => c :: plainDots rest
    | [] => []

/-- Resolves dots; the segments kept so far are given last one first. Dots at the end leave an empty segment. -/
def resolveDots : List (List Char) → List (List Char) → List (List Char)
  | kept, [] => kept.reverse
  | kept, segment :: rest =>
    let (kept, dots) :=
      if isDots ['.', '.'] segment then (kept.tail, true)
      else if isDots ['.'] segment then (kept, true)
      else (segment :: kept, false)
    if dots && rest.isEmpty then ([] :: kept).reverse else resolveDots kept rest

def pathSegments (path : List Char) : List (List Char) := resolveDots [] (Text.splitOn '/' path)

def beforeQuery (cs : List Char) : List Char := cs.takeWhile fun c => c ≠ '?' && c ≠ '#'

def hostName (authority : List Char) : String :=
  let afterUser := (authority.reverse.takeWhile (· ≠ '@')).reverse
  String.ofList ((afterUser.takeWhile (· ≠ ':')).map Char.toLower)

def isDrive (cs : List Char) : Bool :=
  match cs with
  | [letter, mark] => letter.isAlpha && (mark = ':' || mark = '|')
  | _ => false

def named (host : String) : Option String := if host = "" then none else some host

def ofFile (rest : List Char) : Uri :=
  match rest with
  | '/' :: '/' :: more =>
    let host := more.takeWhile (· ≠ '/')
    if isDrive host then ⟨none, some (pathSegments more)⟩
    else
      let name := String.ofList (host.map Char.toLower)
      let host := if name = "localhost" then none else named name
      ⟨host, some (pathSegments ((more.dropWhile (· ≠ '/')).drop 1))⟩
  | '/' :: more => ⟨none, some (pathSegments more)⟩
  | more => ⟨none, some (pathSegments more)⟩

def ofSpecial (rest : List Char) : Except Fault Uri :=
  let rest := rest.dropWhile (· = '/')
  let host := hostName (rest.takeWhile (· ≠ '/'))
  if host = "" then .error .emptyHost
  else .ok ⟨some host, some (pathSegments ((rest.dropWhile (· ≠ '/')).drop 1))⟩

def ofGeneral (rest : List Char) : Uri :=
  match rest with
  | '/' :: '/' :: more =>
    let host := hostName (more.takeWhile (· ≠ '/'))
    match more.dropWhile (· ≠ '/') with
    | '/' :: path => ⟨named host, some (pathSegments path)⟩
    | _ => ⟨named host, none⟩
  | '/' :: path => ⟨none, some (pathSegments path)⟩
  | _ => ⟨none, none⟩

def parse (text : String) : Except Fault Uri :=
  match scheme? (cleaned text.toList) with
  | none => .error .relative
  | some (scheme, rest) =>
    let rest := beforeQuery rest
    if isSpecial scheme then
      let rest := rest.map fun c => if c = '\\' then '/' else c
      if scheme = "file" then .ok (ofFile rest) else ofSpecial rest
    else .ok (ofGeneral rest)

def percentDecoded : List Char → List UInt8
  | '%' :: a :: b :: rest =>
    match Json.hexValue? a, Json.hexValue? b with
    | some high, some low => UInt8.ofNat (high * 16 + low) :: percentDecoded rest
    | _, _ => 37 :: percentDecoded (a :: b :: rest)
  | c :: rest => String.utf8EncodeChar c ++ percentDecoded rest
  | [] => []

def filePath? (u : Uri) : Option String :=
  match u.host, u.segments with
  | some host, some segments => if host = "localhost" then some (path segments) else none
  | none, some segments => some (path segments)
  | _, none => none
where
  path (segments : List (List Char)) : String :=
    let bytes := segments.flatMap fun segment => 47 :: percentDecoded segment
    let cs := Text.ofBytes bytes
    -- A drive letter at the end is a directory.
    String.ofList (if 2 < cs.length && isDrive (cs.drop (cs.length - 2)) then cs ++ ['/'] else cs)

end Uri

end ClassLinker
