import ClassLinker.Config.Basic
import ClassLinker.Problem
import ClassLinker.Workspace.Search

set_option autoImplicit false

namespace ClassLinker

structure Mapping where
  stem : String
  target : Target
deriving DecidableEq, Repr

structure Resolver where
  mappings : List Mapping
  scripts : List String

inductive Resolution where
  | paths (found : List String)
  | disabled
  | unmapped (namespaceName : String)
deriving DecidableEq, Repr

namespace Resolver

def stemSize (m : Mapping) : Nat := Text.byteSize m.stem.toList

def ofConfig (c : Config) : Resolver where
  mappings := (c.mappings.toList.map fun (stem, target) => (⟨stem, target⟩ : Mapping)).mergeSort
    fun a b => stemSize b ≤ stemSize a
  scripts := c.scripts

def restAfter? (stem name : List Char) : Option (List Char) :=
  if name = stem then some [] else (Text.dropStart? stem name).bind (Text.dropStart? ['.'])

def mappingFor? (r : Resolver) (name : String) : Option (Mapping × String) :=
  r.mappings.findSome? fun m =>
    (restAfter? m.stem.toList name.toList).map fun rest => (m, String.ofList rest)

/-- The directory of a mapping, without what follows from a star on. -/
def baseDirectory (base : List Char) : List Char :=
  if base.contains '*' then Text.dropEnd (· = '/') (base.takeWhile (· ≠ '*')) else base

def baseDirectories (r : Resolver) : List (String × String) :=
  r.mappings.filterMap fun m =>
    match m.target with
    | .path base => some (m.stem, String.ofList (baseDirectory base.toList))
    | .disabled => none

def maxSteps : Nat := 16

def follow (alternates : Table String) : Nat → List String → String → Except Problem String
  | n, chain, current =>
    match alternates[current]? with
    | none => .ok current
    | some next =>
      if next ∈ chain then .error (.aliasCycle (chain ++ [next]))
      else match n with
        | 0 => .error (.aliasCycle (chain ++ [next]))
        | n + 1 => follow alternates n (chain ++ [next]) next

/-- The name that alternate names lead to. A chain that is too long or comes back to itself is a problem. -/
def canonicalName (alternates : Table String) (name : String) : Except Problem String :=
  follow alternates maxSteps [name] name

def starPattern (ext : String) : List Char → List Char
  | [] => []
  | c :: rest => if c = '*' then "**/*.".toList ++ ext.toList ++ rest else c :: starPattern ext rest

def expandStar (r : Resolver) (w : Workspace) (path : List Char) : List String :=
  sortedUnique <| r.scripts.flatMap fun ext =>
    (w.expand (String.ofList (starPattern ext path))).map (WebPath.withoutScriptExtension · r.scripts)

def classPath (base rest : List Char) : List Char :=
  Text.joinWith '/' (base :: (Text.splitOn '.' rest).filter (· ≠ []))

def resolveCanonical (r : Resolver) (w : Workspace) (name : String) : Resolution :=
  match r.mappingFor? name with
  | none => .unmapped (String.ofList (name.toList.takeWhile (· ≠ '.')))
  | some (m, rest) =>
    match m.target with
    | .disabled => .disabled
    | .path base =>
      let path := classPath base.toList rest.toList
      .paths (if path.contains '*' then r.expandStar w path else [String.ofList path])

def resolve (r : Resolver) (w : Workspace) (alternates : Table String) (name : String) :
    Except Problem (String × Resolution) := do
  let canonical ← canonicalName alternates name
  return (canonical, r.resolveCanonical w canonical)

end Resolver

end ClassLinker
