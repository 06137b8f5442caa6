import ClassLinker.Glob.Basic

set_option autoImplicit false

namespace ClassLinker.Glob

inductive Fault where
  | unclosedClass
  | invalidRange (low high : Char)
  | unclosedGroup
  | unopenedGroup
  | danglingEscape
deriving DecidableEq, Repr

def Fault.message (text : String) (fault : Fault) : String :=
  let cause := match fault with
    | .unclosedClass => "unclosed character class; missing ']'"
    | .invalidRange low high => s!"invalid range; '{low}' > '{high}'"
    | .unclosedGroup =>
      "unclosed alternate group; missing '\x7d' (maybe escape '\x7b' with '[\x7b]'?)"
    | .unopenedGroup =>
      "unopened alternate group; missing '\x7b' (maybe escape '\x7d' with '[\x7d]'?)"
    | .danglingEscape => "dangling '\\'"
  s!"error parsing glob '{text}': {cause}"

structure ClassDraft where
  negated : Bool
  ranges : List (Char × Char)
  fresh : Bool
  hyphen : Bool

inductive Mode where
  | plain
  | escaped
  | star (before : Option Char)
  | stars (before : Option Char)
  | classStart
  | classBody (draft : ClassDraft)

structure OpenGroup where
  outer : List Part
  branches : List (List Part)

structure State where
  mode : Mode
  previous : Option Char
  parts : List Part
  groups : List OpenGroup

namespace State

def start : State := ⟨.plain, none, [], []⟩

def push (s : State) (part : Part) : State := { s with parts := part :: s.parts }

def plain (s : State) (c : Char) : Except Fault State :=
  let before := s.previous
  let s := { s with mode := .plain, previous := some c }
  match c with
  | '?' => .ok (s.push .any)
  | '*' => .ok { s with mode := .star before }
  | '[' => .ok { s with mode := .classStart }
  | '\\' => .ok { s with mode := .escaped }
  | '\x7b' => .ok { s with parts := [], groups := ⟨s.parts, []⟩ :: s.groups }
  | '\x7d' =>
    match s.groups with
    | [] => .error .unopenedGroup
    | group :: groups =>
      let branches := (s.parts.reverse :: group.branches).reverse
      .ok { s with parts := .alternatives branches :: group.outer, groups }
  | ',' =>
    match s.groups with
    | [] => .ok (s.push (.literal ','))
    | group :: groups =>
      .ok { s with parts := [], groups := { group with branches := s.parts.reverse :: group.branches } :: groups }
  | c => .ok (s.push (.literal c))

/-- Puts a part for whole components in the place of the slash before it; after another such part at the start or
the end of the pattern there is nothing to add. -/
def recurse (s : State) (part : Part) : State :=
  match s.parts with
  | .leading :: _ | .trailing :: _ => s
  | parts => { s with parts := part :: parts.tail }

/-- What two stars after `before` mean when `next` follows, and whether `next` belongs to them. They stand for whole
components only between slashes; otherwise they are two single ones. -/
def closeStars (s : State) (before next : Option Char) : State × Bool :=
  let inGroup := !s.groups.isEmpty
  let twice := (s.push .star).push .star
  if s.parts.isEmpty then
    if next = none || next = some '/' then (s.push .leading, true) else (twice, false)
  else if before ≠ some '/' && !(inGroup && (before = some ',' || before = some '\x7b')) then (twice, false)
  else match next with
    | none => (s.recurse .trailing, true)
    | some '/' => (s.recurse .between, true)
    | some c => if inGroup && (c = ',' || c = '\x7d') then (s.recurse .trailing, false) else (twice, false)

def member (s : State) (draft : ClassDraft) (c : Char) : Except Fault State :=
  let continued (draft : ClassDraft) : State := { s with mode := .classBody { draft with fresh := false } }
  if c = ']' && !draft.fresh then
    let ranges := if draft.hyphen then ('-', '-') :: draft.ranges else draft.ranges
    .ok ({ s with mode := .plain }.push (.oneOf draft.negated ranges.reverse))
  else if draft.hyphen then
    match draft.ranges with
    | (low, _) :: ranges =>
      if c < low then .error (.invalidRange low c)
      else .ok (continued { draft with ranges := (low, c) :: ranges, hyphen := false })
    | [] => .ok (continued draft)
  else if c = '-' && !draft.fresh then .ok (continued { draft with hyphen := true })
  else .ok (continued { draft with ranges := (c, c) :: draft.ranges })

def step (s : State) (c : Char) : Except Fault State :=
  match s.mode with
  | .plain => s.plain c
  | .escaped => .ok ({ s with mode := .plain, previous := some c }.push (.literal c))
  | .star before =>
    if c = '*' then .ok { s with mode := .stars before, previous := some c } else (s.push .star).plain c
  | .stars before =>
    let (s, taken) := s.closeStars before (some c)
    if taken then .ok { s with mode := .plain, previous := some c } else s.plain c
  | .classStart =>
    let s := { s with previous := some c }
    if c = '!' || c = '^' then .ok { s with mode := .classBody ⟨true, [], true, false⟩ }
    else s.member ⟨false, [], true, false⟩ c
  | .classBody draft => { s with previous := some c }.member draft c

def finish (s : State) : Except Fault Glob := do
  let s ← match s.mode with
    | .plain => .ok s
    | .escaped => .error .danglingEscape
    | .star _ => .ok (s.push .star)
    | .stars before => .ok (s.closeStars before none).1
    | .classStart | .classBody _ => .error .unclosedClass
  if s.groups.isEmpty then return ⟨s.parts.reverse⟩ else .error .unclosedGroup

end State

def parse (text : String) : Except Fault Glob := do
  (← text.toList.foldlM State.step State.start).finish

end ClassLinker.Glob
