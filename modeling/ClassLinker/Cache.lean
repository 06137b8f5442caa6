import ClassLinker.Record
import ClassLinker.Collections

set_option autoImplicit false

namespace ClassLinker

abbrev Cache := Table FileRecord

namespace Cache

inductive Lookup where
  | hit (output : TransformOutput)
  | failed (problem : Problem)
  | miss
deriving DecidableEq, Repr

def lookup (cache : Cache) (path fingerprint : String) : Lookup :=
  match cache[path]? with
  | none => .miss
  | some r =>
    if r.fingerprint ≠ fingerprint then .miss
    else match r.state, r.output, r.error with
      | .cached, some output, _ => .hit output
      | .failed, _, some problem => .failed problem
      | _, _, _ => .miss

def put (cache : Cache) (r : FileRecord) : Cache := cache.insert r.path r

def update (cache : Cache) (path : String) (f : FileRecord → FileRecord) : Cache :=
  match cache[path]? with
  | some r => cache.insert path (f r)
  | none => cache

def invalidate (cache : Cache) (path : String) : Cache :=
  cache.update path fun r => { r with state := .unseen, output := none, error := none }

def dropOutput (r : FileRecord) : FileRecord :=
  if r.state = .cached then { r with state := .importsResolved, output := none } else r

def invalidateAll (cache : Cache) : Cache := cache.map fun _ r => dropOutput r

end Cache

end ClassLinker
