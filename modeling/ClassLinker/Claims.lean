import ClassLinker.Config.Basic
import ClassLinker.Collections

set_option autoImplicit false

namespace ClassLinker

structure Claims where
  policy : DedupPolicy
  owners : Table String

namespace Claims

def ofPolicy (policy : DedupPolicy) : Claims := ⟨policy, ∅⟩

def size (c : Claims) : Nat := c.owners.size

def owner? (c : Claims) (path : String) : Option String := c.owners[path]?

/-- Whether `file` may import `path`. -/
def claim (c : Claims) (path file : String) : Bool × Claims :=
  match c.policy with
  | .file => (true, c)
  | .global =>
    match c.owners[path]? with
    | some owner => (owner == file, c)
    | none => (true, { c with owners := c.owners.insert path file })

def release (c : Claims) (file : String) : Claims :=
  { c with owners := c.owners.filter fun _ owner => owner ≠ file }

def clear (c : Claims) : Claims := { c with owners := ∅ }

end Claims

end ClassLinker
