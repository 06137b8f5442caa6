import Std.Data.ExtTreeSet
import ClassLinker.Script.Grammar.Statement

set_option autoImplicit false

namespace ClassLinker.Script

open Grammar Reader

/-- The rules tied together; `n` bounds how deep they nest. -/
def rulesTo : Nat → Rules
  | 0, _ => failure
  | n + 1, goal =>
    match goal with
    | .statement => statement (rulesTo n)
    | .sequence => sequence (rulesTo n)
    | .expression level => expression (rulesTo n) level
    | .element => element (rulesTo n)

def hashBang : Reader (List Node) := do
  if ← sees "#!" then
    return [← lexeme .hashBang fun p => some (p.advanceWhile (· ≠ '\n'))]
  else return []

def nextStatement (rules : Rules) : Reader (Option Node) := do
  match ← peek with
  | [] => return none
  | _ => some <$> rules .statement

def program (rules : Rules) : Reader Node := do
  let line ← hashBang
  let statements ← many (nextStatement rules) (← bound)
  node .program 0 (line ++ statements)

/-- Each construct that nests reads a character before it comes back to the same rule. -/
def nesting (source : List Char) : Nat := 4 * source.length + 8

def readProgram (source : List Char) : Option Node :=
  (program (rulesTo (nesting source)) (Cursor.ofSource source)).map (·.1)

def boundaries (source : List Char) : Std.ExtTreeSet Nat :=
  .ofList (Text.offsetsFrom 0 source)

theorem contains_boundaries (source : List Char) (offset : Nat) :
    (boundaries source).contains offset = Text.isBoundary source offset := by
  rw [boundaries, Std.ExtTreeSet.contains_ofList, Bool.eq_iff_iff, List.contains_iff_mem, Text.mem_offsetsFrom]
  simp

structure Tree where
  source : List Char
  root : Node
  settled : root.all Node.settled = true
  placed : root.placed 0 (Text.byteSize source) = true
  bounded : root.all (fun n => Text.isBoundary source n.start && Text.isBoundary source n.stop) = true

namespace Tree

def ofSource? (source : List Char) : Option Tree :=
  match readProgram source with
  | none => none
  | some root =>
    let marks := boundaries source
    if settled : root.all Node.settled = true then
      if placed : root.placed 0 (Text.byteSize source) = true then
        if bounded : root.all (fun n => marks.contains n.start && marks.contains n.stop) = true then
          some ⟨source, root, settled, placed, by simpa only [marks, contains_boundaries] using bounded⟩
        else none
      else none
    else none

theorem ofSource?_eq {source : List Char} {t : Tree} (read : ofSource? source = some t) :
    t.source = source ∧ readProgram source = some t.root := by
  unfold ofSource? at read
  cases program : readProgram source with
  | none =>
    rw [program] at read
    cases read
  | some root =>
    rw [program] at read
    simp only at read
    split at read
    next =>
      split at read
      next =>
        split at read
        next =>
          cases read
          exact ⟨rfl, rfl⟩
        next => cases read
      next => cases read
    next => cases read

def text (t : Tree) (n : Node) : String :=
  String.ofList (Text.slice t.source n.start n.stop)

end Tree

end ClassLinker.Script
