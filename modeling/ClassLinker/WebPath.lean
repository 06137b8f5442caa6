import ClassLinker.Text.Parts

set_option autoImplicit false

namespace ClassLinker.WebPath

def withoutQuery (id : String) : String :=
  String.ofList (id.toList.takeWhile (· ≠ '?'))

def isAlwaysSkipped (id : String) : Bool :=
  let path := (withoutQuery id).toList
  Text.endsWith ".css".toList path || Text.endsWith ".scss".toList path || Text.endsWith ".html".toList path ||
    Text.endsWith "?direct".toList id.toList || Text.hasPart "node_modules/.vite".toList id.toList ||
    Text.hasPart "vite@".toList id.toList

def slashed (cs : List Char) : List Char :=
  cs.map fun c => if c = '\\' then '/' else c

def foldSegments : List (List Char) → List (List Char) → List (List Char)
  | kept, [] => kept.reverse
  | kept, segment :: rest =>
    if segment = [] || segment = ['.'] then foldSegments kept rest
    else if segment = ['.', '.'] then foldSegments kept.tail rest
    else foldSegments (segment :: kept) rest

def segments (path : List Char) : List (List Char) :=
  foldSegments [] (Text.splitOn '/' (slashed path))

def ofSegments (parts : List (List Char)) : List Char :=
  '/' :: Text.joinWith '/' parts

def withoutExtension? (ext path : List Char) : Option (List Char) :=
  (Text.dropEnd? ext path).bind (Text.dropEnd? ['.'])

def dropExtension : List String → List Char → List Char
  | [], path => path
  | ext :: rest, path => (withoutExtension? ext.toList path).getD (dropExtension rest path)

def withoutScriptExtension (path : String) (scripts : List String) : String :=
  String.ofList (dropExtension scripts path.toList)

def normaliseChars (scripts : List String) (path : List Char) : List Char :=
  dropExtension scripts (ofSegments (segments path))

def normalise (path : String) (scripts : List String) : String :=
  String.ofList (normaliseChars scripts path.toList)

/-- What is left of an id below a root; an id that is not below it is left as it is. -/
def belowRoot (root id : List Char) : List Char :=
  let root := Text.dropEnd (· = '/') (slashed root)
  if root = [] then id
  else match Text.dropStart? root id with
    | some rest => if rest = [] || rest.head? = some '/' then rest else id
    | none => id

/-- The web path of a file id: an absolute path below the root or a path relative to it, with or without a
query. -/
def ofFileId (root id : String) (scripts : List String) : String :=
  let id := slashed (withoutQuery id).toList
  String.ofList (normaliseChars scripts (belowRoot root.toList id))

def directory (path : List Char) : List Char :=
  ((path.reverse.dropWhile (· ≠ '/')).drop 1).reverse

def ofSpecifier? (importer specifier : String) (scripts : List String) : Option String :=
  let cs := specifier.toList
  if Text.startsWith ['/'] cs then some (normalise specifier scripts)
  else if Text.startsWith "./".toList cs || Text.startsWith "../".toList cs then
    some (String.ofList (normaliseChars scripts (directory importer.toList ++ '/' :: cs)))
  else none

def dropHere : List Char → List Char
  | '.' :: '/' :: rest => dropHere rest
  | cs => cs

/-- A directory that a namespace is mapped to: a leading slash and none at the end. -/
def normaliseBase (path : String) : String :=
  String.ofList ('/' :: Text.dropEnd (· = '/') ((dropHere (slashed path.toList)).dropWhile (· = '/')))

end ClassLinker.WebPath
