import ClassLinker.Proofs.Shift

set_option autoImplicit false

/-!
Reading the same text at two places. Two readers that stand before the same text, in two sources or at two places of
one, read the same parts, and the second one reads them further on by as many bytes as it stood further on before.
Nothing depends on how many steps a reader may take, as long as these are more than the characters that are left.
-/

namespace ClassLinker.Script

open Located

namespace Cursor

/-- The second cursor stands before the same text, `k` bytes further on. Unless `tight`, other blanks and comments
may come first. -/
structure Meets (k : Nat) (tight : Bool) (c d : Cursor) : Prop where
  next : d.skip.toPoint = c.skip.toPoint.shift k
  same : tight = true → d.toPoint = c.toPoint.shift k
  literal : d.literalStatements = c.literalStatements
  left : c.rest.length < c.limit
  right : c.rest.length < d.limit

theorem length_skipGap (gap : Gap) (n : Nat) (cs : List Char) : (skipGap gap n cs).1.length ≤ cs.length := by
  fun_induction skipGap gap n cs <;> simp_all <;> omega

theorem length_skip (c : Cursor) : c.skip.rest.length ≤ c.rest.length :=
  length_skipGap .blanks 0 c.rest

theorem skip_of_same {k : Nat} {c d : Cursor} (same : d.toPoint = c.toPoint.shift k) :
    d.skip.toPoint = c.skip.toPoint.shift k := by
  have rest : d.rest = c.rest := by rw [same, Point.rest_shift]
  have offset : d.offset = c.offset + k := by rw [same, Point.offset_shift]
  simp only [skip, moveTo, Point.shift, rest, offset, Nat.add_right_comm]

variable {k : Nat} {tight : Bool} {c d : Cursor}

theorem Meets.rest (meets : Meets k tight c d) : d.skip.rest = c.skip.rest := by
  rw [meets.next, Point.rest_shift]

theorem Meets.offset (meets : Meets k tight c d) : d.skip.offset = c.skip.offset + k := by
  rw [meets.next, Point.offset_shift]

theorem Meets.loosen (meets : Meets k true c d) : Meets k tight c d :=
  { meets with same := fun _ => meets.same rfl }

theorem Meets.setLiteral (meets : Meets k tight c d) (literal : Bool) :
    Meets k tight { c with literalStatements := literal } { d with literalStatements := literal } :=
  { meets with literal := rfl }

theorem Meets.move (meets : Meets k tight c d) {p : Point} (shorter : p.rest.length ≤ c.rest.length) :
    Meets k true (c.moveTo p) (d.moveTo (p.shift k)) where
  next := skip_of_same rfl
  same := fun _ => rfl
  literal := meets.literal
  left := Nat.lt_of_le_of_lt shorter meets.left
  right := Nat.lt_of_le_of_lt shorter meets.right

end Cursor

section

variable {α β : Type}

theorem rel_bind {α' β' : Type} {R : α → α' → Prop} {S : β → β' → Prop} {x : Option α} {y : Option α'}
    (related : Option.Rel R x y) {f : α → Option β} {g : α' → Option β'}
    (next : ∀ a b, R a b → Option.Rel S (f a) (g b)) : Option.Rel S (x.bind f) (y.bind g) := by
  cases related with
  | none => exact .none
  | some related => exact next _ _ related

theorem rel_mono {R S : α → β → Prop} {x : Option α} {y : Option β} (related : Option.Rel R x y)
    (weaker : ∀ a b, R a b → S a b) : Option.Rel S x y := by
  cases related with
  | none => exact .none
  | some related => exact .some (weaker _ _ related)

/-- From where two readers meet, with `m` characters left, either both fail or both end where they meet again, and
then `After` holds of what they give, of how tightly they meet and of the number of characters that are left. -/
def Parallel (k : Nat) (tight : Bool) (m : Nat) (After : α → α → Bool → Nat → Prop) (f g : Reader α) : Prop :=
  ∀ c d : Cursor, c.Meets k tight d → c.rest.length = m →
    Option.Rel (fun x y => ∃ after, x.2.Meets k after y.2 ∧ After x.1 y.1 after x.2.rest.length) (f c) (g d)

def Passed [Located α] (k m : Nat) (a b : α) (tight : Bool) (left : Nat) : Prop :=
  b = shift k a ∧ tight = true ∧ left < m

def Kept [Located α] (k : Nat) (before : Bool) (m : Nat) (a b : α) (tight : Bool) (left : Nat) : Prop :=
  b = shift k a ∧ (tight = true ∨ tight = before) ∧ left ≤ m

def Offered [Located α] (k : Nat) (before : Bool) (m : Nat) (a b : Option α) (tight : Bool) (left : Nat) : Prop :=
  Kept k before m a b tight left ∧ (a.isSome → tight = true ∧ left < m)

def Tried (before : Bool) (m : Nat) (a b : Bool) (tight : Bool) (left : Nat) : Prop :=
  b = a ∧ (a = true ∧ tight = true ∧ left < m ∨ a = false ∧ tight = before ∧ left = m)

def Takes [Located α] (k m : Nat) (f g : Reader α) : Prop :=
  ∀ tight, Parallel k tight m (Passed k m) f g

def Tries [Located α] (k m : Nat) (f g : Reader α) : Prop :=
  ∀ tight, Parallel k tight m (Kept k tight m) f g

variable {k m : Nat} {tight : Bool} {After : β → β → Bool → Nat → Prop}

namespace Parallel

theorem bind {First : α → α → Bool → Nat → Prop} {f g : Reader α} {next next' : α → Reader β}
    (first : Parallel k tight m First f g)
    (rest : ∀ a b after left, First a b after left → Parallel k after left After (next a) (next' b)) :
    Parallel k tight m After (f >>= next) (g >>= next') := by
  intro c d meets size
  refine rel_bind (first c d meets size) ?_
  rintro x y ⟨after, meets, first⟩
  exact rest _ _ after _ first _ _ meets rfl

theorem pure {a b : β} (after : After a b tight m) : Parallel k tight m After (pure a) (pure b) := by
  intro c d meets size
  exact .some ⟨tight, meets, size ▸ after⟩

theorem pureThen {a b : α} {next next' : α → Reader β} (rest : Parallel k tight m After (next a) (next' b)) :
    Parallel k tight m After (Pure.pure a >>= next) (Pure.pure b >>= next') :=
  rest

theorem failure : Parallel k tight m After failure failure := by
  intro c d _ _
  exact .none

theorem orElse {f g f' g' : Reader β} (first : Parallel k tight m After f g)
    (second : Parallel k tight m After f' g') : Parallel k tight m After (f <|> f') (g <|> g') := by
  intro c d meets size
  change Option.Rel _ ((f c) <|> (f' c)) ((g d) <|> (g' d))
  have related := first c d meets size
  generalize f c = x at related
  generalize g d = y at related
  cases related with
  | none => exact second c d meets size
  | some related => exact .some related

theorem weaken {After' : β → β → Bool → Nat → Prop} {f g : Reader β} (first : Parallel k tight m After f g)
    (weaker : ∀ a b after left, After a b after left → After' a b after left) : Parallel k tight m After' f g := by
  intro c d meets size
  refine rel_mono (first c d meets size) ?_
  rintro x y ⟨after, meets, holds⟩
  exact ⟨after, meets, weaker _ _ _ _ holds⟩

theorem tighten {f g : Reader β} (first : Parallel k tight m After f g) : Parallel k true m After f g :=
  fun c d meets size => first c d meets.loosen size

theorem ite {p : Prop} [Decidable p] {f g f' g' : Reader β} (yes : Parallel k tight m After f f')
    (no : Parallel k tight m After g g') : Parallel k tight m After (if p then f else g) (if p then f' else g') := by
  split
  next => exact yes
  next => exact no

theorem passed [Located β] {a b : β} {n : Nat} (same : b = shift k a) (less : m < n) :
    Parallel k true m (Passed k n) (Pure.pure a) (Pure.pure b) :=
  pure ⟨same, rfl, less⟩

theorem kept [Located β] {a b : β} {before : Bool} {n : Nat} (same : b = shift k a)
    (tightness : tight = true ∨ tight = before) (less : m ≤ n) :
    Parallel k tight m (Kept k before n) (Pure.pure a) (Pure.pure b) :=
  pure ⟨same, tightness, less⟩

theorem widen [Located β] {f g : Reader β} {before : Bool} {n n' : Nat}
    (first : Parallel k tight m (Kept k before n) f g) (le : n ≤ n') : Parallel k tight m (Kept k before n') f g :=
  first.weaken fun _ _ _ _ ⟨same, tightness, left⟩ => ⟨same, tightness, Nat.le_trans left le⟩

end Parallel

theorem Takes.bind [Located α] {f g : Reader α} {next next' : α → Reader β} (first : Takes k m f g)
    (rest : ∀ a left, left < m → Parallel k true left After (next a) (next' (shift k a))) :
    Parallel k tight m After (f >>= next) (g >>= next') := by
  refine (first tight).bind ?_
  rintro a b after left ⟨rfl, rfl, less⟩
  exact rest a left less

theorem Tries.bind [Located α] {f g : Reader α} {next next' : α → Reader β} (first : Tries k m f g)
    (rest : ∀ a left, left ≤ m → Parallel k tight left After (next a) (next' (shift k a))) :
    Parallel k tight m After (f >>= next) (g >>= next') := by
  refine (first tight).bind ?_
  rintro a b after left ⟨rfl, rfl | rfl, less⟩
  next => exact (rest a left less).tighten
  next => exact rest a left less

theorem Parallel.reached [Located β] {f g : Reader β} {n n' : Nat} (first : Parallel k true m (Kept k true n) f g)
    (less : n < n') : Parallel k true m (Passed k n') f g :=
  first.weaken fun _ _ _ _ ⟨same, tightness, left⟩ => ⟨same, by simpa using tightness, Nat.lt_of_le_of_lt left less⟩

theorem Takes.within [Located α] {f g : Reader α} (first : Takes k m f g) {n : Nat} (less : m ≤ n) :
    Parallel k tight m (Passed k n) f g :=
  (first tight).weaken fun _ _ _ _ ⟨same, strict, left⟩ => ⟨same, strict, Nat.lt_of_lt_of_le left less⟩

theorem Takes.kept [Located α] {f g : Reader α} (first : Takes k m f g) {before : Bool} {n : Nat} (less : m ≤ n) :
    Parallel k tight m (Kept k before n) f g :=
  (first tight).weaken fun _ _ _ _ ⟨same, strict, left⟩ =>
    ⟨same, .inl strict, Nat.le_of_lt (Nat.lt_of_lt_of_le left less)⟩

theorem Tries.within [Located α] {f g : Reader α} (first : Tries k m f g) {before : Bool} {n : Nat}
    (tightness : tight = true ∨ tight = before) (le : m ≤ n) : Parallel k tight m (Kept k before n) f g := by
  refine (first tight).weaken ?_
  rintro _ _ after left ⟨same, between, less⟩
  refine ⟨same, ?_, Nat.le_trans less le⟩
  rcases between with rfl | rfl
  next => exact .inl rfl
  next => exact tightness

theorem Takes.offered [Located α] {f g : Reader α} (first : Takes k m f g) {before : Bool} {n : Nat} (le : m ≤ n) :
    Parallel k tight m (Offered k before n) (some <$> f) (some <$> g) := by
  rw [map_eq_pure_bind, map_eq_pure_bind]
  refine first.bind fun a left less => Parallel.pure ?_
  exact ⟨⟨rfl, .inl rfl, by omega⟩, fun _ => ⟨rfl, by omega⟩⟩

theorem declined [Located α] {before : Bool} (tightness : tight = true ∨ tight = before) :
    Parallel k tight m (Offered k before m) (pure (none : Option α)) (pure none) :=
  Parallel.pure ⟨⟨rfl, tightness, Nat.le_refl m⟩, nofun⟩

theorem Tried.or {a b a' b' : Bool} {before between after : Bool} {i j : Nat} (first : Tried before m a b between i)
    (second : Tried between i a' b' after j) : Tried before m (a || a') (b || b') after j := by
  unfold Tried at first second ⊢
  grind

namespace Parallel

open Reader Grammar

theorem get {next next' : Cursor → Reader β}
    (rest : ∀ c d : Cursor, c.Meets k tight d → c.rest.length = m → Parallel k tight m After (next c) (next' d)) :
    Parallel k tight m After (get >>= next) (get >>= next') := by
  intro c d meets size
  exact rest c d meets size c d meets size

theorem set {c d : Cursor} {after : Bool} {next next' : PUnit → Reader β} (meets : c.Meets k after d)
    (rest : Parallel k after c.rest.length After (next ⟨⟩) (next' ⟨⟩)) :
    Parallel k tight m After (set c >>= next) (set d >>= next') :=
  fun _ _ _ _ => rest c d meets rfl

theorem modify {change : Cursor → Cursor} {next next' : PUnit → Reader β} (rests : ∀ c, (change c).rest = c.rest)
    (keeps : ∀ c d : Cursor, c.Meets k tight d → (change c).Meets k tight (change d))
    (rest : Parallel k tight m After (next ⟨⟩) (next' ⟨⟩)) :
    Parallel k tight m After (modify change >>= next) (modify change >>= next') :=
  fun c d meets size => rest _ _ (keeps c d meets) (by rw [rests, size])

theorem pass {c d : Cursor} {n : Nat} {next next' : PUnit → Reader β} (meets : c.Meets k true d)
    (rest : Parallel k true (c.rest.length - n) After (next ⟨⟩) (next' ⟨⟩)) :
    Parallel k tight m After (MonadState.set (c.pass n) >>= next) (MonadState.set (d.pass n) >>= next') := by
  have moved : d.pass n = d.moveTo ((c.advance n).shift k) := by
    rw [← Point.advance_shift, ← meets.same rfl]
    rfl
  have size : (c.pass n).rest.length = c.rest.length - n := List.length_drop
  rw [moved]
  refine set (meets.move (by simp)) ?_
  rw [size]
  exact rest

theorem peek {next next' : List Char → Reader β} (rest : ∀ cs, Parallel k tight m After (next cs) (next' cs)) :
    Parallel k tight m After (peek >>= next) (peek >>= next') := by
  intro c d meets size
  change Option.Rel _ (next c.skip.rest c) (next' d.skip.rest d)
  rw [meets.rest]
  exact rest _ c d meets size

theorem here {next next' : Nat → Reader β} (rest : ∀ start, Parallel k tight m After (next start) (next' (start + k))) :
    Parallel k tight m After (here >>= next) (here >>= next') := by
  intro c d meets size
  change Option.Rel _ (next c.skip.offset c) (next' d.skip.offset d)
  rw [meets.offset]
  exact rest _ c d meets size

theorem behind {next next' : Nat → Reader β} (rest : ∀ stop, Parallel k true m After (next stop) (next' (stop + k))) :
    Parallel k true m After (behind >>= next) (behind >>= next') := by
  intro c d meets size
  have offset : d.offset = c.offset + k := by rw [meets.same rfl, Point.offset_shift]
  change Option.Rel _ (next c.offset c) (next' d.offset d)
  rw [offset]
  exact rest _ c d meets size

theorem bound {next next' : Nat → Reader β}
    (rest : ∀ n n', m < n → m < n' → Parallel k tight m After (next n) (next' n')) :
    Parallel k tight m After (bound >>= next) (bound >>= next') := by
  intro c d meets size
  exact rest c.limit d.limit (size ▸ meets.left) (size ▸ meets.right) c d meets size

theorem peekAfter {text : String} {next next' : List Char → Reader β}
    (rest : ∀ cs, Parallel k tight m After (next cs) (next' cs)) :
    Parallel k tight m After (peekAfter text >>= next) (peekAfter text >>= next') := by
  intro c d meets size
  have after : (d.skip.pass text.length).skip.rest = (c.skip.pass text.length).skip.rest := by
    rw [Cursor.skip_of_same (k := k) (c := c.skip.pass text.length), Point.rest_shift]
    simp only [Cursor.pass, Cursor.moveTo, meets.next, Point.advance_shift]
  change Option.Rel _ (next (c.skip.pass text.length).skip.rest c) (next' (d.skip.pass text.length).skip.rest d)
  rw [after]
  exact rest _ c d meets size

theorem sees {text : String} {next next' : Bool → Reader β} (rest : ∀ b, Parallel k tight m After (next b) (next' b)) :
    Parallel k tight m After (sees text >>= next) (sees text >>= next') := by
  simp only [Reader.sees, bind_assoc, pure_bind]
  exact peek fun cs => rest _

theorem peekWord {next next' : List Char → Reader β} (rest : ∀ cs, Parallel k tight m After (next cs) (next' cs)) :
    Parallel k tight m After (peekWord >>= next) (peekWord >>= next') := by
  simp only [Grammar.peekWord, bind_assoc, pure_bind]
  exact peek fun cs => rest _

theorem seesWord {text : String} {next next' : Bool → Reader β}
    (rest : ∀ b, Parallel k tight m After (next b) (next' b)) :
    Parallel k tight m After (seesWord text >>= next) (seesWord text >>= next') := by
  simp only [Grammar.seesWord, bind_assoc, pure_bind]
  exact peekWord fun cs => rest _

theorem seesEquals {next next' : Bool → Reader β} (rest : ∀ b, Parallel k tight m After (next b) (next' b)) :
    Parallel k tight m After (seesEquals >>= next) (seesEquals >>= next') := by
  simp only [Grammar.seesEquals, bind_assoc]
  refine peek fun cs => ?_
  split <;> exact rest _

theorem require {condition : Bool} {next next' : Unit → Reader β}
    (rest : Parallel k tight m After (next ()) (next' ())) :
    Parallel k tight m After (require condition >>= next) (require condition >>= next') := by
  unfold Reader.require
  split
  next => exact rest
  next => exact failure

section

variable {text : String} {f g f' g' : Reader β} (yes : Parallel k tight m After f f')
  (no : Parallel k tight m After g g')

include yes no

theorem ifSees :
    Parallel k tight m After (Reader.sees text >>= fun b => if b = true then f else g)
      (Reader.sees text >>= fun b => if b = true then f' else g') :=
  sees fun _ => ite yes no

theorem ifSeesWord :
    Parallel k tight m After (Grammar.seesWord text >>= fun b => if b = true then f else g)
      (Grammar.seesWord text >>= fun b => if b = true then f' else g') :=
  seesWord fun _ => ite yes no

theorem ifEquals :
    Parallel k tight m After (Grammar.seesEquals >>= fun b => if b = true then f else g)
      (Grammar.seesEquals >>= fun b => if b = true then f' else g') :=
  seesEquals fun _ => ite yes no

end

theorem node {kind : Kind} {start start' : Nat} {children children' : List Node} {n : Nat} (less : m < n)
    (same : start' = start + k) (parts : children' = shift k children) :
    Parallel k true m (Passed k n) (node kind start children) (node kind start' children') := by
  subst same parts
  exact behind fun stop => passed (by simp) less

theorem nodeKept {kind : Kind} {start start' : Nat} {children children' : List Node} {before : Bool} {n : Nat}
    (le : m ≤ n) (same : start' = start + k) (parts : children' = shift k children) :
    Parallel k true m (Kept k before n) (Reader.node kind start children) (Reader.node kind start' children') := by
  subst same parts
  exact behind fun stop => kept (by simp) (.inl rfl) le

theorem nodeThen {kind : Kind} {start start' : Nat} {children children' : List Node} {next next' : Node → Reader β}
    (same : start' = start + k) (parts : children' = shift k children)
    (rest : ∀ stop, Parallel k true m After (next (.mk kind start stop children))
      (next' (shift k (.mk kind start stop children)))) :
    Parallel k true m After (Reader.node kind start children >>= next)
      (Reader.node kind start' children' >>= next') := by
  subst same parts
  simp only [Reader.node, bind_assoc, pure_bind]
  exact behind fun stop => by simpa using rest stop

end Parallel

open Reader Grammar

theorem takes_symbol {text : String} (visible : text.toList ≠ []) : Takes k m (symbol text) (symbol text) := by
  intro tight
  refine .get fun c d meets size => ?_
  dsimp only
  rw [meets.rest]
  split
  next next =>
    -- both move past the same characters
    have shorter : (c.skip.advance text.length).rest.length < m := by
      have short := (List.isPrefixOf_iff_prefix.1 next).length_le
      have := c.length_skip
      have := List.length_pos_iff.2 visible
      simp only [Point.rest_advance, List.length_drop, String.length_toList] at *
      omega
    have moved : d.skip.pass text.length = d.moveTo ((c.skip.advance text.length).shift k) := by
      rw [← Point.advance_shift, ← meets.next]
      rfl
    rw [moved]
    intro _ _ _ _
    exact .some ⟨true, meets.move (by omega), rfl, rfl, shorter⟩
  next => exact .failure

theorem takes_lexeme {kind : Kind} {recognise : Point → Option Point} (places : Lexeme.Local recognise)
    (shortens : Lexeme.Shortens recognise) : Takes k m (lexeme kind recognise) (lexeme kind recognise) := by
  intro tight
  refine .get fun c d meets size => ?_
  dsimp only
  rw [meets.next, places]
  cases taken : recognise c.skip.toPoint with
  | none => exact .failure
  | some p =>
    have shorter : p.rest.length < m := by
      have := shortens _ _ taken
      have := c.length_skip
      omega
    refine .set (meets.move (by omega)) ?_
    refine .passed ?_ shorter
    simp

theorem tried_symbol {text : String} (visible : text.toList ≠ []) :
    Parallel k tight m (Tried tight m) (symbol? text) (symbol? text) := by
  refine .ifSees ?_ ?_
  next => exact (takes_symbol visible).bind fun _ left less => .pure ⟨rfl, .inl ⟨rfl, rfl, less⟩⟩
  next => exact .pure ⟨rfl, .inr ⟨rfl, rfl, rfl⟩⟩

theorem takes_keyword {text : String} (visible : text.toList ≠ []) : Takes k m (keyword text) (keyword text) := by
  intro tight
  exact .seesWord fun _ => .require (takes_symbol visible tight)

theorem tried_keyword {text : String} (visible : text.toList ≠ []) :
    Parallel k tight m (Tried tight m) (keyword? text) (keyword? text) := by
  refine .ifSeesWord ?_ ?_
  next => exact (takes_symbol visible).bind fun _ left less => .pure ⟨rfl, .inl ⟨rfl, rfl, less⟩⟩
  next => exact .pure ⟨rfl, .inr ⟨rfl, rfl, rfl⟩⟩

theorem Tried.tries {question : Reader Bool} (tried : ∀ tight, Parallel k tight m (Tried tight m) question question) :
    Tries k m question question := by
  intro tight
  refine (tried tight).weaken ?_
  rintro a b after left ⟨rfl, ⟨_, rfl, less⟩ | ⟨_, rfl, rfl⟩⟩
  next => exact ⟨rfl, .inl rfl, Nat.le_of_lt less⟩
  next => exact ⟨rfl, .inr rfl, Nat.le_refl _⟩

theorem tries_symbol {text : String} (visible : text.toList ≠ []) : Tries k m (symbol? text) (symbol? text) :=
  Tried.tries fun _ => tried_symbol visible

theorem tries_keyword {text : String} (visible : text.toList ≠ []) : Tries k m (keyword? text) (keyword? text) :=
  Tried.tries fun _ => tried_keyword visible

theorem Parallel.ifTried {question : Reader Bool} {f g f' g' : Reader β}
    (tried : Parallel k tight m (Tried tight m) question question)
    (yes : ∀ left, left < m → Parallel k true left After f f') (no : Parallel k tight m After g g') :
    Parallel k tight m After (question >>= fun b => if b = true then f else g)
      (question >>= fun b => if b = true then f' else g') := by
  refine tried.bind ?_
  rintro a b after left ⟨rfl, ⟨rfl, rfl, less⟩ | ⟨rfl, rfl, rfl⟩⟩
  next => simpa using yes left less
  next => simpa using no

theorem Parallel.ifSymbol {text : String} {f g f' g' : Reader β} (visible : text.toList ≠ [])
    (yes : ∀ left, left < m → Parallel k true left After f f') (no : Parallel k tight m After g g') :
    Parallel k tight m After (symbol? text >>= fun b => if b = true then f else g)
      (symbol? text >>= fun b => if b = true then f' else g') :=
  ifTried (tried_symbol visible) yes no

theorem Parallel.ifKeyword {text : String} {f g f' g' : Reader β} (visible : text.toList ≠ [])
    (yes : ∀ left, left < m → Parallel k true left After f f') (no : Parallel k tight m After g g') :
    Parallel k tight m After (keyword? text >>= fun b => if b = true then f else g)
      (keyword? text >>= fun b => if b = true then f' else g') :=
  ifTried (tried_keyword visible) yes no

theorem takes_word {kind : Kind} : Takes k m (word kind) (word kind) :=
  takes_lexeme Lexeme.local_word? Lexeme.shortens_word?

theorem Parallel.ahead [Located α] {f g : Reader α} {next next' : α → Reader β} (first : Tries k m f g)
    (rest : ∀ a, Parallel k tight m After (next a) (next' (shift k a))) :
    Parallel k tight m After (Reader.ahead f >>= next) (Reader.ahead g >>= next') := by
  simp only [Reader.ahead, bind_assoc, pure_bind]
  refine .get fun c d meets size => ?_
  refine first.bind fun a left le => .set meets ?_
  rw [size]
  exact rest a

theorem length_passGap (through : Bool) (gap : Gap) (seen : Bool) (cs : List Char) :
    (passGap through gap seen cs).2.length ≤ cs.length := by
  fun_induction passGap through gap seen cs <;> simp_all <;> omega

theorem endsAt_congr {later later' : List Char → Bool} {cs : List Char}
    (same : ∀ rest : List Char, rest.length < cs.length → later rest = later' rest) :
    endsAt later cs = endsAt later' cs := by
  cases cs with
  | nil => rfl
  | cons c rest => simp only [endsAt, same rest (by simp)]

theorem endsHere_fuel (goesOn : Bool) {n n' : Nat} {cs : List Char} (enough : cs.length < n)
    (enough' : cs.length < n') :
    endsHere goesOn n cs = endsHere goesOn n' cs := by
  induction n generalizing n' cs with
  | zero => omega
  | succ n ih =>
    obtain ⟨n', rfl⟩ : ∃ i, n' = i + 1 := ⟨n' - 1, by omega⟩
    have later {after : List Char} (shorter : after.length ≤ cs.length) :
        endsAt (endsHere goesOn n) after = endsAt (endsHere goesOn n') after :=
      endsAt_congr fun rest less => ih (by omega) (by omega)
    cases cs with
    | nil => rfl
    | cons c rest =>
      by_cases slash : c = '/'
      case neg => rw [endsHere, endsHere, later (Nat.le_refl _)] <;> simpa using slash
      case pos =>
        subst slash
        rw [endsHere, endsHere]
        have shorter := length_passGap false .blanks false ('/' :: rest)
        generalize passGap false .blanks false ('/' :: rest) = passed at shorter
        obtain ⟨passage, after⟩ := passed
        have same := later shorter
        cases passage <;> simp [same]

theorem length_pastComment {p : Point} {c : Char} {rest : List Char} (text : p.rest = c :: rest) {inside : Char → Bool}
    (in_ : inside c = true) : (p.advanceWhile inside).rest.length < p.rest.length := by
  rw [Point.advanceWhile, text, List.takeWhile_cons_of_pos in_, List.length_cons, ← text]
  exact Point.length_advance_lt text _

theorem pastComment?_meets {c d : Cursor} (meets : c.Meets k true d) :
    Option.Rel (fun c' d' : Cursor => c'.Meets k true d' ∧ c'.rest.length < c.rest.length)
      c.pastComment? d.pastComment? := by
  have blanks := Point.length_advanceWhile c.toPoint isBlank
  unfold Cursor.pastComment?
  simp only [meets.same rfl, Point.advanceWhile_shift, Point.advance_shift, Point.rest_shift]
  split
  next text =>
    have shorter : ((c.advanceWhile isBlank).advanceWhile fun x => !(isLineEnd x || x = '\r')).rest.length < _ :=
      length_pastComment text (by decide)
    exact .some ⟨meets.move (by omega), by simp only [Cursor.moveTo]; omega⟩
  next rest text =>
    have shorter : ((c.advanceWhile isBlank).advance (commentLength rest + 2)).rest.length < _ :=
      Point.length_advance_lt text (commentLength rest + 1)
    split
    next => exact .some ⟨meets.move (by omega), by simp only [Cursor.moveTo]; omega⟩
    next => exact .none
  next => exact .none

theorem hiddenSemicolon?_meets (goesOn : Bool) {n n' : Nat} {c d : Cursor} (meets : c.Meets k true d)
    (enough : c.rest.length < n) (enough' : c.rest.length < n') :
    Option.Rel (fun c' d' : Cursor => c'.Meets k true d' ∧ c'.rest.length ≤ c.rest.length)
      (c.hiddenSemicolon? goesOn n) (d.hiddenSemicolon? goesOn n') := by
  induction n generalizing n' c d with
  | zero => omega
  | succ n ih =>
    obtain ⟨n', rfl⟩ : ∃ i, n' = i + 1 := ⟨n' - 1, by omega⟩
    have rest : d.rest = c.rest := by rw [meets.same rfl, Point.rest_shift]
    have ends : endsHere goesOn d.limit d.rest = endsHere goesOn c.limit c.rest := by
      rw [rest]
      exact endsHere_fuel goesOn meets.right meets.left
    unfold Cursor.hiddenSemicolon?
    rw [ends]
    split
    next => exact .some ⟨meets, Nat.le_refl _⟩
    next =>
      refine rel_bind (pastComment?_meets meets) ?_
      rintro c' d' ⟨meets, less⟩
      refine rel_mono (ih meets (by omega) (by omega)) ?_
      rintro _ _ ⟨meets, shorter⟩
      exact ⟨meets, by omega⟩

theorem parallel_hiddenSemicolon (goesOn : Bool) :
    Parallel k true m (Kept k true m) (hiddenSemicolon goesOn) (hiddenSemicolon goesOn) := by
  refine .get fun c d meets size => ?_
  have related := hiddenSemicolon?_meets goesOn meets meets.left meets.right
  generalize c.hiddenSemicolon? goesOn c.limit = x at related
  generalize d.hiddenSemicolon? goesOn d.limit = y at related
  cases related with
  | none => exact .kept rfl (.inl rfl) (Nat.le_refl m)
  | some related =>
    obtain ⟨meets, shorter⟩ := related
    exact .set meets (.kept rfl (.inl rfl) (by omega))

theorem Parallel.seesHiddenSemicolon {goesOn : Bool} {next next' : Bool → Reader β}
    (rest : ∀ b, Parallel k true m After (next b) (next' b)) :
    Parallel k true m After (seesHiddenSemicolon goesOn >>= next) (seesHiddenSemicolon goesOn >>= next') := by
  simp only [Reader.seesHiddenSemicolon, bind_assoc, pure_bind]
  refine .get fun c d meets size => ?_
  have related := hiddenSemicolon?_meets goesOn meets meets.left meets.right
  generalize c.hiddenSemicolon? goesOn c.limit = x at related
  generalize d.hiddenSemicolon? goesOn d.limit = y at related
  cases related <;> exact rest _

theorem Parallel.thenKept [Located α] {f g : Reader α} {next next' : α → Reader β}
    (first : Parallel k true m (Kept k true m) f g)
    (rest : ∀ a left, left ≤ m → Parallel k true left After (next a) (next' (shift k a))) :
    Parallel k true m After (f >>= next) (g >>= next') := by
  refine first.bind ?_
  rintro a b after left ⟨rfl, rfl | rfl, less⟩ <;> exact rest a left less

theorem parallel_semicolon (goesOn : Bool) :
    Parallel k true m (Kept k true m) (semicolon goesOn) (semicolon goesOn) := by
  refine (parallel_hiddenSemicolon goesOn).thenKept fun ended left less => ?_
  refine .ite ?_ ?_
  next => exact .kept rfl (.inl rfl) less
  next => exact (takes_symbol (by decide)).kept less

theorem tries_many {item item' : Reader (Option Node)} {n n' : Nat}
    (items : ∀ left, left ≤ m → ∀ tight, Parallel k tight left (Offered k tight left) item item') (enough : m < n)
    (enough' : m < n') : Tries k m (many item n) (many item' n') := by
  intro tight
  induction n generalizing m n' tight with
  | zero => omega
  | succ n ih =>
    obtain ⟨n', rfl⟩ : ∃ i, n' = i + 1 := ⟨n' - 1, by omega⟩
    refine (items m (Nat.le_refl m) tight).bind ?_
    rintro a b after left ⟨⟨rfl, tightness, less⟩, taken⟩
    cases a with
    | none => exact .kept rfl tightness less
    | some x =>
      obtain ⟨rfl, less⟩ := taken rfl
      have rest : Tries k left (many item n) (many item' n') :=
        ih (fun i le => items i (by omega)) (by omega) (by omega)
      exact rest.bind fun xs left' less' => .kept rfl (.inl rfl) (by omega)

theorem Parallel.manyThen {item item' : Reader (Option Node)} {next next' : List Node → Reader β}
    (items : ∀ left, left ≤ m → ∀ tight, Parallel k tight left (Offered k tight left) item item')
    (rest : ∀ xs left, left ≤ m → Parallel k tight left After (next xs) (next' (shift k xs))) :
    Parallel k tight m After (do next (← many item (← Reader.bound))) (do next' (← many item' (← Reader.bound))) :=
  .bound fun _ _ enough enough' => (tries_many items enough enough').bind rest

theorem takes_slots {close : String} (visible : close.toList ≠ []) {item item' : Reader Node} {n n' : Nat}
    (items : ∀ left, left ≤ m → Takes k left item item') (enough : m < n) (enough' : m < n') :
    Takes k m (slots close item n) (slots close item' n') := by
  intro tight
  induction n generalizing m n' tight with
  | zero => omega
  | succ n ih =>
    obtain ⟨n', rfl⟩ : ∃ i, n' = i + 1 := ⟨n' - 1, by omega⟩
    have rest {left : Nat} (less : left < m) : Takes k left (slots close item n) (slots close item' n') :=
      ih (fun i le => items i (by omega)) (by omega) (by omega)
    refine .ifSymbol visible (fun left less => .passed rfl less) ?_
    refine .ifSymbol (by decide) ?_ ?_
    next =>
      intro left less
      exact (rest less).bind fun list left' less' => .passed rfl (by omega)
    next =>
      refine (items m (Nat.le_refl m)).bind fun first left less => ?_
      refine .ifSymbol visible (fun left' less' => .passed rfl (by omega)) ?_
      refine (takes_symbol (by decide)).bind fun _ left' less' => ?_
      refine .ifSymbol visible (fun i lt => .passed rfl (by omega)) ?_
      exact (rest (by omega)).bind fun list i lt => .passed rfl (by omega)

end

end ClassLinker.Script
