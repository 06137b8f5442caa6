import ClassLinker.Proofs.Placement

set_option autoImplicit false

namespace ClassLinker.Script

/-- The nodes that a value of a reader consists of, in order. -/
class HasNodes (α : Type) where
  nodes : α → List Node

open HasNodes (nodes)

instance : HasNodes Node := ⟨fun n => [n]⟩
instance : HasNodes (List Node) := ⟨id⟩
instance : HasNodes (Option Node) := ⟨Option.toList⟩
instance : HasNodes Grammar.Slots := ⟨Grammar.Slots.items⟩
instance : HasNodes (Kind × List Node) := ⟨Prod.snd⟩

@[simp] theorem nodes_node (n : Node) : nodes n = [n] := rfl
@[simp] theorem nodes_list (ns : List Node) : nodes ns = ns := rfl
@[simp] theorem nodes_option (o : Option Node) : nodes o = o.toList := rfl
@[simp] theorem nodes_slots (list : Grammar.Slots) : nodes list = list.items := rfl

/-- What is known while a rule reads: it started at `lo` or at blanks before it, and has read these nodes since.
Once `moved`, the cursor itself is at `lo` or later. -/
structure Stage (source : List Char) (lo : Nat) (moved : Bool) (ns : List Node) (c : Cursor) : Prop where
  reached : Point.Reaches ⟨source, 0⟩ c.toPoint
  mark : Text.isBoundary source lo = true
  ahead : lo ≤ c.skip.offset
  spans : Spans source lo c.offset ns
  past : moved = true → lo ≤ c.offset

namespace Stage

variable {source : List Char} {lo start : Nat} {moved : Bool} {ns ms : List Node} {n : Node} {c d : Cursor}

theorem offset_le_skip (c : Cursor) : c.offset ≤ c.skip.offset := c.reaches_skip.offset_le

theorem weaken (stage : Stage source lo true ns c) : Stage source lo moved ns c :=
  ⟨stage.reached, stage.mark, stage.ahead, stage.spans, fun _ => stage.past rfl⟩

theorem forget (stage : Stage source lo moved ns c) : Stage source lo false ns c :=
  ⟨stage.reached, stage.mark, stage.ahead, stage.spans, nofun⟩

theorem nil_or_moved (stage : Stage source lo moved ns c) : ns = [] ∨ Stage source lo true ns c := by
  cases ns with
  | nil => exact .inl rfl
  | cons n rest =>
    obtain ⟨low, high, -⟩ := stage.spans.first_le
    exact .inr ⟨stage.reached, stage.mark, stage.ahead, stage.spans, fun _ => Nat.le_trans low high⟩

theorem move (stage : Stage source lo true ns c) (reaches : c.toPoint.Reaches d.toPoint) :
    Stage source lo true ns d := by
  have later : c.offset ≤ d.offset := reaches.offset_le
  have past : lo ≤ d.offset := Nat.le_trans (stage.past rfl) later
  exact ⟨stage.reached.trans reaches, stage.mark, Nat.le_trans past (offset_le_skip d),
    stage.spans.widen (Nat.le_refl lo) later, fun _ => past⟩

/-- Text read after the blanks that follow. -/
theorem pass (stage : Stage source lo moved ns c) (reaches : c.skip.toPoint.Reaches d.toPoint) :
    Stage source lo true ns d := by
  have whole := c.reaches_skip.trans reaches
  have past : lo ≤ d.offset := Nat.le_trans stage.ahead reaches.offset_le
  exact ⟨stage.reached.trans whole, stage.mark, Nat.le_trans past (offset_le_skip d),
    stage.spans.widen (Nat.le_refl lo) whole.offset_le, fun _ => past⟩

theorem replace (stage : Stage source lo moved ns c) (spans : Spans source lo c.offset ms) :
    Stage source lo moved ms c :=
  ⟨stage.reached, stage.mark, stage.ahead, spans, stage.past⟩

/-- The stage of a part that starts where the cursor stands. -/
theorem fresh (stage : Stage source lo moved ns c) (reaches : c.toPoint.Reaches d.toPoint) :
    Stage source c.offset true [] d :=
  have later : c.offset ≤ d.offset := reaches.offset_le
  ⟨stage.reached.trans reaches, stage.reached.offset_of_start.2, Nat.le_trans later (offset_le_skip d), .nil,
    fun _ => later⟩

/-- The stage of a part that starts after the blanks that follow. -/
theorem opened (stage : Stage source lo moved ns c) : Stage source c.skip.offset false [] c :=
  ⟨stage.reached, (stage.reached.trans c.reaches_skip).offset_of_start.2, Nat.le_refl _, .nil, nofun⟩

/-- What a part has read comes after what was read before it. -/
theorem resume (stage : Stage source lo moved ns c) (low : lo ≤ start) (after : c.offset ≤ start)
    (part : Stage source start true ms d) : Stage source lo true (ns ++ ms) d := by
  have past : start ≤ d.offset := part.past rfl
  have spans : Spans source lo d.offset (ns ++ ms) := by
    rcases stage.nil_or_moved with rfl | moved
    · exact part.spans.widen low (Nat.le_refl _)
    · exact stage.spans.append (part.spans.widen after (Nat.le_refl _)) (moved.past rfl) (Nat.le_trans after past)
  exact ⟨part.reached, stage.mark, Nat.le_trans low part.ahead, spans, fun _ => Nat.le_trans low past⟩

theorem append (stage : Stage source lo true ns c) (part : Stage source c.offset true ms d) :
    Stage source lo true (ns ++ ms) d :=
  stage.resume (stage.past rfl) (Nat.le_refl _) part

theorem append_opened (stage : Stage source lo moved ns c) (part : Stage source c.skip.offset true ms d) :
    Stage source lo true (ns ++ ms) d :=
  stage.resume stage.ahead (offset_le_skip c) part

theorem node {cs : List Node} (stage : Stage source lo true cs c) (kind : Kind) :
    Stage source lo true [.mk kind lo c.offset cs] c :=
  stage.replace (Spans.singleton_iff.2
    ⟨Nat.le_refl lo, stage.past rfl, Nat.le_refl _, stage.mark, stage.reached.offset_of_start.2, stage.spans⟩)

theorem from_first (stage : Stage source lo moved (n :: ns) c) :
    lo ≤ n.start ∧ Stage source n.start true (n :: ns) c := by
  obtain ⟨low, high, starts⟩ := stage.spans.first_le
  exact ⟨low, stage.reached, starts, Nat.le_trans high (offset_le_skip c), stage.spans.from_first, fun _ => high⟩

end Stage

/-- From a cursor before, the reader gets to one after. -/
def Reader.Carries {α : Type} (before : Cursor → Prop) (r : Reader α) (after : α → Cursor → Prop) : Prop :=
  ∀ c v c', before c → r c = some (v, c') → after v c'

def Reader.Looks {α : Type} (r : Reader α) : Prop := ∀ c v c', r c = some (v, c') → c' = c

namespace Reader.Carries

variable {α β : Type} {before : Cursor → Prop} {after : β → Cursor → Prop}

theorem bind {r : Reader α} {f : α → Reader β} {between : α → Cursor → Prop} (first : Carries before r between)
    (next : ∀ v, Carries (between v) (f v) after) : Carries before (r >>= f) after := by
  intro c v c' holds ran
  obtain ⟨⟨a, d⟩, read, rest⟩ := Option.bind_eq_some_iff.1 ran
  exact next a d v c' (first c a d holds read) rest

theorem look {r : Reader α} {f : α → Reader β} (looks : Looks r) (next : ∀ v, Carries before (f v) after) :
    Carries before (r >>= f) after :=
  bind (fun c v c' holds ran => (looks c v c' ran ▸ holds : before c')) next

theorem given {before' : Cursor → Prop} {r : Reader β} (read : Carries before' r after)
    (stronger : ∀ c, before c → before' c) : Carries before r after :=
  fun c v c' holds ran => read c v c' (stronger c holds) ran

theorem hence {after' : β → Cursor → Prop} {r : Reader β} (read : Carries before r after')
    (weaker : ∀ v c, after' v c → after v c) : Carries before r after :=
  fun c v c' holds ran => weaker v c' (read c v c' holds ran)

theorem pure {v : β} (holds : ∀ c, before c → after v c) : Carries before (Pure.pure v : Reader β) after := by
  intro c w c' was ran
  cases ran
  exact holds c was

theorem failure : Carries before (Alternative.failure : Reader β) after := by
  intro c v c' _ ran
  cases ran

theorem orElse {r r' : Reader β} (left : Carries before r after) (right : Carries before r' after) :
    Carries before (r <|> r') after := by
  intro c v c' holds ran
  have either : (r c).orElse (fun _ => r' c) = some (v, c') := ran
  cases read : r c with
  | none => exact right c v c' holds (by simpa [read] using either)
  | some found => exact left c v c' holds (by simpa [read] using either)

theorem get {f : Cursor → Reader β} (next : ∀ c, before c → Carries (· = c) (f c) after) :
    Carries before (MonadState.get >>= f) after :=
  fun c v c' holds ran => next c holds c v c' rfl ran

theorem set {d : Cursor} {f : PUnit → Reader β} (next : Carries (· = d) (f ⟨⟩) after) :
    Carries before (MonadStateOf.set d >>= f) after :=
  fun _ v c' _ ran => next d v c' rfl ran

end Reader.Carries

namespace Reader

variable {α β : Type} {source : List Char} {lo : Nat} {moved : Bool} {ns : List Node} {after : β → Cursor → Prop}

/-- The reader passes some text; its nodes span what it has passed. -/
def Reads [HasNodes α] (source : List Char) (r : Reader α) : Prop :=
  ∀ lo, Carries (Stage source lo false []) r fun v => Stage source lo true (nodes v)

/-- The reader may also find nothing and stay where it is. -/
def Extends [HasNodes α] (source : List Char) (r : Reader α) : Prop :=
  ∀ lo moved, Carries (Stage source lo moved []) r fun v => Stage source lo moved (nodes v)

/-- The reader goes on from the very place of the cursor, blanks included. -/
def Continues [HasNodes α] (source : List Char) (r : Reader α) : Prop :=
  ∀ lo, Carries (Stage source lo true []) r fun v => Stage source lo true (nodes v)

section
variable [HasNodes α] {r : Reader α} {f : α → Reader β}

theorem Continues.bind (first : Continues source r)
    (next : ∀ v, Carries (Stage source lo true (ns ++ nodes v)) (f v) after) :
    Carries (Stage source lo true ns) (r >>= f) after := by
  refine Carries.bind (fun c v c' stage ran => ?_) next
  exact stage.append (first c.offset c v c' (stage.fresh (.refl _)) ran)

theorem Extends.bind (first : Extends source r)
    (next : ∀ v, Carries (Stage source lo moved (ns ++ nodes v)) (f v) after) :
    Carries (Stage source lo moved ns) (r >>= f) after := by
  refine Carries.bind (fun c v c' stage ran => ?_) next
  rcases stage.nil_or_moved with rfl | stage
  · exact first lo moved c v c' stage ran
  · exact (stage.append (first c.offset true c v c' (stage.fresh (.refl _)) ran)).weaken

theorem Reads.extends (first : Reads source r) : Extends source r :=
  fun lo _ c v c' stage ran => (first lo c v c' stage.forget ran).weaken

theorem Reads.bind (first : Reads source r)
    (next : ∀ v, Carries (Stage source lo true (ns ++ nodes v)) (f v) after) :
    Carries (Stage source lo moved ns) (r >>= f) after := by
  refine Carries.bind (fun c v c' stage ran => ?_) next
  rcases stage.nil_or_moved with rfl | stage
  · exact first lo c v c' stage.forget ran
  · exact stage.append (first c.offset c v c' (stage.fresh (.refl _)).forget ran)

end

namespace Carries

theorem done [HasNodes β] {v : β} (same : ns = nodes v) :
    Carries (Stage source lo moved ns) (Pure.pure v : Reader β) fun v => Stage source lo moved (nodes v) :=
  .pure fun _ stage => same ▸ stage

theorem replace {r : Reader β} {ms : List Node} (read : Carries (Stage source lo moved ms) r after)
    (spans : ∀ hi, Spans source lo hi ns → Spans source lo hi ms) : Carries (Stage source lo moved ns) r after :=
  read.given fun c stage => stage.replace (spans c.offset stage.spans)

theorem select {r : Reader β} {ms : List Node} (read : Carries (Stage source lo moved ms) r after)
    (part : ms.Sublist ns) : Carries (Stage source lo moved ns) r after :=
  read.replace fun _ spans => spans.sublist part

/-- Reads on in terms of where the first node starts. -/
theorem from_first [HasNodes β] {r : Reader β} {n : Node}
    (read : Carries (Stage source n.start true (n :: ns)) r fun v => Stage source n.start true (nodes v)) :
    Carries (Stage source lo moved (n :: ns)) r fun v => Stage source lo true (nodes v) := by
  intro c v c' stage ran
  obtain ⟨low, inner⟩ := stage.from_first
  have later := read c v c' inner ran
  exact ⟨later.reached, stage.mark, Nat.le_trans low later.ahead, later.spans.widen low (Nat.le_refl _),
    fun _ => Nat.le_trans low (later.past rfl)⟩

/-- What is read from here on is a part of its own; `resume` takes it back into the whole. -/
theorem here {f : Nat → Reader β}
    (next : ∀ start, (∀ ms c, Stage source start true ms c → Stage source lo true (ns ++ ms) c) →
      Carries (Stage source start false []) (f start) after) :
    Carries (Stage source lo moved ns) (Reader.here >>= f) after :=
  fun c v c' stage ran => next c.skip.offset (fun _ _ part => stage.append_opened part) c v c' stage.opened ran

/-- Moves on and reads a part that starts at the place where the cursor was. -/
theorem set_fresh {c d : Cursor} {f : PUnit → Reader β} {before : Cursor → Prop}
    (stage : Stage source lo moved ns c) (reaches : c.toPoint.Reaches d.toPoint)
    (next : Carries (Stage source c.offset true []) (f ⟨⟩) after) :
    Carries before (MonadStateOf.set d >>= f) after :=
  .set fun e v c' same ran => next e v c' (same ▸ stage.fresh reaches) ran

theorem node {kind : Kind} {cs : List Node} (part : cs.Sublist ns) :
    Carries (Stage source lo true ns) (Reader.node kind lo cs) fun n => Stage source lo true (nodes n) := by
  intro c v c' stage ran
  cases ran
  exact (stage.replace (stage.spans.sublist part)).node kind

theorem node_first {kind : Kind} {first : Node} {rest cs : List Node} (all : ns = first :: rest)
    (part : cs.Sublist ns) :
    Carries (Stage source lo true ns) (Reader.node kind first.start cs) fun n => Stage source lo true (nodes n) := by
  subst all
  exact from_first (node part)

/-- A node whose parts are still needed after it. -/
theorem node_then {kind : Kind} {start : Nat} {cs : List Node} {f : Node → Reader β}
    (next : ∀ stop, Carries (fun c => Stage source lo moved ns c ∧ c.offset = stop) (f (.mk kind start stop cs)) after) :
    Carries (Stage source lo moved ns) (Reader.node kind start cs >>= f) after :=
  fun c v c' stage ran => next c.offset c v c' ⟨stage, rfl⟩ ran

end Carries

theorem Reads.here [HasNodes β] {f : Nat → Reader β}
    (next : ∀ start, Carries (Stage source start false []) (f start) fun v => Stage source start true (nodes v)) :
    Reads source (Reader.here >>= f) :=
  fun _ => .here fun start resume => (next start).hence fun v c stage => resume (nodes v) c stage

section
variable [HasNodes β] {r r' : Reader β}

theorem Reads.look {r : Reader α} {f : α → Reader β} (looks : Looks r) (next : ∀ v, Reads source (f v)) :
    Reads source (r >>= f) :=
  fun lo => .look looks fun v => next v lo

theorem Reads.failure : Reads source (Alternative.failure : Reader β) := fun _ => .failure

theorem Reads.orElse (left : Reads source r) (right : Reads source r') : Reads source (r <|> r') :=
  fun lo => (left lo).orElse (right lo)

theorem Reads.carries (read : Reads source r) :
    Carries (Stage source lo moved []) r fun v => Stage source lo true (nodes v) :=
  (read lo).given fun _ stage => stage.forget

theorem Extends.look {r : Reader α} {f : α → Reader β} (looks : Looks r) (next : ∀ v, Extends source (f v)) :
    Extends source (r >>= f) :=
  fun lo moved => .look looks fun v => next v lo moved

theorem Extends.none {v : β} (empty : nodes v = []) : Extends source (Pure.pure v : Reader β) :=
  fun _ _ => .done empty.symm

theorem Reads.offered {r : Reader Node} (read : Reads source r) : Extends source (some <$> r) := by
  intro lo moved
  rw [map_eq_pure_bind]
  exact (read.bind fun v => .done (by simp)).hence fun _ _ stage => stage.weaken

end

theorem Extends.many {item : Reader (Option Node)} (each : Extends source item) (n : Nat) :
    Extends source (many item n) := by
  intro lo moved
  induction n generalizing lo moved with
  | zero => exact .failure
  | succ n ih =>
    refine each.bind fun o => ?_
    cases o with
    | none => exact .done (by simp)
    | some x => exact Extends.bind (fun lo moved => ih lo moved) fun rest => .done (by simp)

theorem Looks.pure (v : α) : Looks (Pure.pure v : Reader α) := by
  intro c w c' ran
  cases ran
  rfl

theorem Looks.bind {r : Reader α} {f : α → Reader β} (first : Looks r) (next : ∀ v, Looks (f v)) :
    Looks (r >>= f) := by
  intro c v c' ran
  obtain ⟨⟨a, d⟩, read, rest⟩ := Option.bind_eq_some_iff.1 ran
  obtain rfl := first c a d read
  exact next a d v c' rest

theorem looks_get : Looks (MonadState.get : Reader Cursor) := by
  intro c v c' ran
  cases ran
  rfl

theorem looks_peek : Looks peek := looks_get.bind fun _ => .pure _

theorem looks_bound : Looks bound := looks_get.bind fun _ => .pure _

theorem looks_sees (text : String) : Looks (sees text) := looks_peek.bind fun _ => .pure _

theorem looks_require (condition : Bool) : Looks (require condition) := by
  unfold require
  split
  next => exact .pure _
  next =>
    intro c v c' ran
    cases ran

theorem looks_seesHiddenSemicolon (goesOn : Bool) : Looks (seesHiddenSemicolon goesOn) :=
  looks_get.bind fun _ => .pure _

theorem looks_ahead {r : Reader α} : Looks (ahead r) := by
  intro c v c' ran
  obtain ⟨⟨a, d⟩, read, rest⟩ := Option.bind_eq_some_iff.1 (show (r c).bind _ = some (v, c') from ran)
  cases rest
  rfl

theorem carries_symbol (text : String) :
    Carries (Stage source lo moved ns) (symbol text) fun _ => Stage source lo true ns := by
  refine .get fun c stage => ?_
  dsimp only
  split
  next =>
    intro d v c' _ ran
    cases ran
    exact stage.pass (Point.reaches_advance c.skip.toPoint text.length)
  next => exact .failure

theorem carries_symbol? (text : String) :
    Carries (Stage source lo moved ns) (symbol? text) fun _ => Stage source lo moved ns := by
  refine .look (looks_sees text) fun found => ?_
  split
  next => exact (carries_symbol text).bind fun _ => .pure fun _ stage => stage.weaken
  next => exact .pure fun _ stage => stage

theorem reads_lexeme (kind : Kind) {recognise : Point → Option Point} (advances : Lexeme.Advances recognise) :
    Reads source (lexeme kind recognise) := by
  refine fun lo => .get fun c stage => ?_
  dsimp only
  split
  next p taken =>
    intro d v c' _ ran
    cases ran
    have part : Stage source c.skip.offset true [] (c.skip.moveTo p) := stage.opened.pass (advances _ _ taken)
    exact stage.append_opened (part.node kind)
  next => exact .failure

theorem carries_hiddenSemicolon (goesOn : Bool) :
    Carries (Stage source lo true ns) (hiddenSemicolon goesOn) fun _ => Stage source lo true ns := by
  refine .get fun c stage => ?_
  split
  next d ends =>
    intro _ v c' _ ran
    cases ran
    exact stage.move (Cursor.reaches_hiddenSemicolon? ends)
  next => exact .pure fun d same => same ▸ stage

theorem carries_semicolon (goesOn : Bool) :
    Carries (Stage source lo true ns) (semicolon goesOn) fun _ => Stage source lo true ns := by
  refine (carries_hiddenSemicolon goesOn).bind fun ends => ?_
  split
  next => exact .pure fun _ stage => stage
  next => exact carries_symbol ";"

end Reader

end ClassLinker.Script
