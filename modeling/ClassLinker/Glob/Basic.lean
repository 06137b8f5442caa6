set_option autoImplicit false

namespace ClassLinker

namespace Glob

inductive Part where
  | literal (c : Char)
  | any
  | star
  | leading
  | between
  | trailing
  | oneOf (negated : Bool) (ranges : List (Char × Char))
  | alternatives (branches : List (List Part))

def bytes (cs : List Char) : List UInt8 := cs.flatMap String.utf8EncodeChar

def slash : UInt8 := 47

/-- A range of a class in bytes. A range between characters of several bytes runs from the last byte of the one to
the first byte of the other; their other bytes stand for themselves. -/
def byteRanges (range : Char × Char) : List (UInt8 × UInt8) :=
  let first := String.utf8EncodeChar range.1
  let last := String.utf8EncodeChar range.2
  let single (b : UInt8) : UInt8 × UInt8 := (b, b)
  if range.1 = range.2 then first.map single
  else match first.getLast?, last with
    | some low, high :: more => first.dropLast.map single ++ (low, high) :: more.map single
    | _, _ => []

def inRanges (ranges : List (Char × Char)) (b : UInt8) : Bool :=
  (ranges.flatMap byteRanges).any fun (low, high) => low ≤ b && b ≤ high

def afterStar : List UInt8 → List (List UInt8)
  | [] => [[]]
  | b :: rest => (b :: rest) :: if b = slash then [] else afterStar rest

def afterSlash : List UInt8 → List (List UInt8)
  | [] => []
  | b :: rest => if b = slash then rest :: afterSlash rest else afterSlash rest

def tails : List UInt8 → List (List UInt8)
  | [] => [[]]
  | b :: rest => (b :: rest) :: tails rest

mutual

def Part.isBlank : Part → Bool
  | .alternatives branches => allBlank branches
  | _ => false

def isBlank : List Part → Bool
  | [] => true
  | part :: rest => part.isBlank && isBlank rest

def allBlank : List (List Part) → Bool
  | [] => true
  | branch :: rest => isBlank branch && allBlank rest

end

mutual

def Part.rests : Part → List UInt8 → List (List UInt8)
  | .literal c, text => ((String.utf8EncodeChar c).isPrefixOf? text).toList
  | .any, text => match text with
    | b :: rest => if b = slash then [] else [rest]
    | [] => []
  | .star, text => afterStar text
  | .leading, text => text :: afterSlash text
  | .between, text => match text with
    | b :: rest => if b = slash then rest :: afterSlash rest else []
    | [] => []
  | .trailing, text => match text with
    | b :: rest => if b = slash then tails rest else []
    | [] => []
  | .oneOf negated ranges, text => match text with
    | b :: rest => if inRanges ranges b ≠ negated then [rest] else []
    | [] => []
  | .alternatives branches, text => if allBlank branches then [text] else restsOfAny branches text

def restsOf : List Part → List UInt8 → List (List UInt8)
  | [], text => [text]
  | part :: more, text => (part.rests text).flatMap fun rest => restsOf more rest

/-- Blank branches match nothing, not the empty text. -/
def restsOfAny : List (List Part) → List UInt8 → List (List UInt8)
  | [], _ => []
  | branch :: more, text => (if isBlank branch then [] else restsOf branch text) ++ restsOfAny more text

end

end Glob

structure Glob where
  parts : List Glob.Part

/-- Whether a pattern matches a whole path. `**` alone matches every path. -/
def Glob.accepts (g : Glob) (path : String) : Bool :=
  match g.parts with
  | [.leading] => true
  | parts => (Glob.restsOf parts (Glob.bytes path.toList)).contains []

end ClassLinker
