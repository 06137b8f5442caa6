import ClassLinker.Proofs.Parallel

set_option autoImplicit false

namespace ClassLinker.Script.Grammar

open Located Reader

def Inner (k m : Nat) (rules rules' : Rules) : Prop :=
  ∀ left, left < m → ∀ goal, Takes k left (rules goal) (rules' goal)

variable {k m : Nat} {rules rules' : Rules}

theorem Inner.mono (inner : Inner k m rules rules') {n : Nat} (le : n ≤ m) : Inner k n rules rules' :=
  fun left less => inner left (Nat.lt_of_lt_of_le less le)

theorem takes_spread (inner : Inner k m rules rules') : Takes k m (spread rules) (spread rules') := by
  intro tight
  refine .here fun start => ?_
  refine (takes_symbol (by decide)).bind fun _ left less => ?_
  refine (inner left less _).bind fun value left' less' => ?_
  exact .node (by omega) rfl rfl

theorem takes_entry (inner : Inner k (m + 1) rules rules') : Takes k m (entry rules) (entry rules') := by
  intro tight
  refine .ifSees ?_ ?_
  next => exact takes_spread (inner.mono (by omega)) tight
  next => exact inner m (by omega) _ tight

theorem takes_entries {close : String} (visible : close.toList ≠ []) (inner : Inner k (m + 1) rules rules') {n n' : Nat}
    (enough : m < n) (enough' : m < n') : Takes k m (slots close (entry rules) n) (slots close (entry rules') n') :=
  takes_slots visible (fun left le => takes_entry (inner.mono (by omega))) enough enough'

theorem takes_list {kind : Kind} {opening close : String} {item item' : Reader Node} (visible : opening.toList ≠ [])
    (visible' : close.toList ≠ []) (items : ∀ left, left < m → Takes k left item item') :
    Takes k m (do let start ← here; symbol opening; let list ← slots close item (← bound); node kind start list.items)
      (do let start ← here; symbol opening; let list ← slots close item' (← bound); node kind start list.items) := by
  intro tight
  refine .here fun start => ?_
  refine (takes_symbol visible).bind fun _ left less => ?_
  refine .bound fun n n' enough enough' => ?_
  have list := takes_slots visible' (fun i le => items i (by omega)) enough enough'
  refine list.bind fun list left' less' => ?_
  exact .node (by omega) rfl rfl

theorem takes_array (inner : Inner k m rules rules') : Takes k m (array rules) (array rules') :=
  takes_list (by decide) (by decide) fun _ less => takes_entry (inner.mono less)

theorem takes_arguments (inner : Inner k m rules rules') : Takes k m (arguments rules) (arguments rules') :=
  takes_list (by decide) (by decide) fun _ less => takes_entry (inner.mono less)

theorem takes_parameters (inner : Inner k m rules rules') : Takes k m (parameters rules) (parameters rules') := by
  intro tight
  refine .here fun start => ?_
  refine (takes_symbol (by decide)).bind fun _ left less => ?_
  refine .bound fun n n' enough enough' => ?_
  refine (takes_entries (by decide) (inner.mono less) enough enough').bind fun list left' less' => ?_
  refine .require ?_
  rw [items_shift, Node.patterns?_shift]
  cases Node.patterns? .binding list.items with
  | none => exact .failure
  | some items => exact .node (by omega) rfl rfl

theorem templateRun_pos {cs : List Char} (plain : cs ≠ []) (noEnd : ∀ rest, cs ≠ '`' :: rest)
    (noEscape : ∀ rest, cs ≠ '\\' :: rest) (noSubstitution : ∀ rest, cs ≠ '$' :: '\x7b' :: rest) :
    0 < Lexeme.templateRun cs := by
  unfold Lexeme.templateRun
  split <;> simp_all

theorem parallel_templatePieces (inner : Inner k (m + 1) rules rules') {n n' : Nat} (enough : m < n)
    (enough' : m < n') :
    Parallel k true m (Passed k m) (templatePieces rules n) (templatePieces rules' n') := by
  induction n generalizing m n' with
  | zero => omega
  | succ n ih =>
    obtain ⟨n', rfl⟩ : ∃ i, n' = i + 1 := ⟨n' - 1, by omega⟩
    refine .get fun c d meets size => ?_
    have rest : d.rest = c.rest := by rw [meets.same rfl, Point.rest_shift]
    have offset : d.offset = c.offset + k := by rw [meets.same rfl, Point.offset_shift]
    have more {left : Nat} (less : left < m) {piece : Node} :
        Parallel k true left (Passed k m) (do return piece :: (← templatePieces rules n))
          (do return shift k piece :: (← templatePieces rules' n')) := by
      refine (ih (inner.mono (by omega)) (by omega) (by omega)).bind ?_
      rintro pieces _ _ left' ⟨rfl, rfl, less'⟩
      exact .passed rfl (by omega)
    rw [rest]
    split
    next => exact .failure
    next text =>
      have less : 0 < c.rest.length := by simp [text]
      exact .pass meets (.passed rfl (by omega))
    next text =>
      have less : 0 < c.rest.length := by simp [text]
      refine .pass meets ?_
      refine (inner _ (by omega) _).bind fun value left less' => ?_
      refine (takes_symbol (by decide)).bind fun _ left' less'' => ?_
      exact .nodeThen offset rfl fun stop => more (by omega)
    next text =>
      rw [meets.same rfl, Lexeme.local_escape?]
      cases taken : Lexeme.escape? c.toPoint with
      | none => exact .failure
      | some p =>
        have less := Lexeme.shortens_escape? _ _ taken
        refine .set (meets.move (by omega)) ?_
        exact .nodeThen rfl rfl fun stop => more (by simp only [Cursor.moveTo]; omega)
    next plain noEnd noSubstitution noEscape =>
      have less : 0 < c.rest.length := List.length_pos_iff.2 plain
      have run : 0 < Lexeme.templateRun c.rest := templateRun_pos plain noEnd noEscape noSubstitution
      refine .pass meets ?_
      exact .nodeThen offset rfl fun stop => more (by omega)

theorem takes_template (inner : Inner k m rules rules') : Takes k m (template rules) (template rules') := by
  intro tight
  refine .here fun start => ?_
  refine (takes_symbol (by decide)).bind fun _ left less => ?_
  refine .bound fun n n' enough enough' => ?_
  refine (parallel_templatePieces (inner.mono less) enough enough').bind ?_
  rintro pieces _ _ left' ⟨rfl, rfl, less'⟩
  exact .node (by omega) rfl rfl

theorem takes_string {kind : Kind} : Takes k m (lexeme kind Lexeme.string?) (lexeme kind Lexeme.string?) :=
  takes_lexeme Lexeme.local_string? Lexeme.shortens_string?

theorem takes_number : Takes k m (lexeme .number Lexeme.number?) (lexeme .number Lexeme.number?) :=
  takes_lexeme Lexeme.local_number? Lexeme.shortens_number?

theorem takes_privateName :
    Takes k m (lexeme .privateProperty Lexeme.privateName?) (lexeme .privateProperty Lexeme.privateName?) :=
  takes_lexeme Lexeme.local_privateName? Lexeme.shortens_privateName?

theorem takes_propertyName (inner : Inner k m rules rules') :
    Takes k m (propertyName rules) (propertyName rules') := by
  intro tight
  refine .peek fun cs => ?_
  split
  next =>
    refine .here fun start => ?_
    refine (takes_symbol (by decide)).bind fun _ left less => ?_
    refine (inner left less _).bind fun value left' less' => ?_
    refine (takes_symbol (by decide)).bind fun _ i lt => ?_
    exact .node (by omega) rfl rfl
  next => exact takes_privateName tight
  next => exact takes_string tight
  next => exact takes_string tight
  next => exact .ite (takes_number tight) (takes_word tight)
  next => exact .failure

theorem takes_memberName : Takes k m memberName memberName := by
  intro tight
  exact .ifSees (takes_privateName tight) (takes_word tight)

theorem parallel_dotted {base base' : Node} (same : base' = shift k base) {n n' : Nat} (enough : m < n)
    (enough' : m < n') : Parallel k true m (Kept k true m) (dotted base n) (dotted base' n') := by
  induction n generalizing m n' base base' with
  | zero => omega
  | succ n ih =>
    obtain ⟨n', rfl⟩ : ∃ i, n' = i + 1 := ⟨n' - 1, by omega⟩
    refine .ifSymbol (by decide) ?_ (.kept same (.inl rfl) (Nat.le_refl m))
    intro left less
    refine takes_word.bind fun name left' less' => ?_
    exact (ih (by simp [same]) (by omega) (by omega)).widen (by omega)

theorem takes_decorator (inner : Inner k m rules rules') : Takes k m (decorator rules) (decorator rules') := by
  intro tight
  refine .here fun start => ?_
  refine (takes_symbol (by decide)).bind fun _ left less => ?_
  refine takes_word.bind fun base left' less' => ?_
  refine .bound fun n n' enough enough' => ?_
  refine (parallel_dotted rfl enough enough').thenKept fun callee i le => ?_
  refine .ifSees ?_ ?_
  next =>
    refine (takes_arguments (inner.mono (by omega))).bind fun arguments j lt => ?_
    exact .node (by omega) rfl (by simp)
  next => exact .node (by omega) rfl rfl

theorem tries_decorators (inner : Inner k m rules rules') : Tries k m (decorators rules) (decorators rules') := by
  intro tight
  refine .bound fun n n' enough enough' => tries_many ?_ enough enough' tight
  intro left le tight
  exact .ifSees ((takes_decorator (inner.mono le)).offered (Nat.le_refl _)) (declined (.inr rfl))

theorem takes_block (inner : Inner k m rules rules') : Takes k m (block rules) (block rules') := by
  intro tight
  refine .here fun start => ?_
  refine (takes_symbol (by decide)).bind fun _ left less => ?_
  refine .manyThen ?_ fun body left' le => ?_
  next =>
    intro i le tight
    exact .ifSees (declined (.inr rfl)) ((inner i (by omega) _).offered (Nat.le_refl _))
  refine (takes_symbol (by decide)).bind fun _ i lt => ?_
  exact .node (by omega) rfl rfl

theorem takes_functionBody (inner : Inner k m rules rules') (goesOn : Bool) :
    Takes k m (functionBody rules goesOn) (functionBody rules' goesOn) := by
  intro tight
  refine (takes_block inner).bind fun body left less => ?_
  refine (parallel_hiddenSemicolon goesOn).thenKept fun _ left' le => ?_
  exact .node (by omega) (by simp) (by simp)

theorem tries_functionName : Tries k m functionName functionName := by
  intro tight
  refine .peek fun cs => .ite ?_ ?_
  next => exact takes_word.bind fun name left less => .kept rfl (.inl rfl) (by omega)
  next => exact .kept rfl (.inr rfl) (Nat.le_refl m)

theorem takes_functionFrom (inner : Inner k m rules rules') (start : Nat) :
    Takes k m (functionFrom rules start) (functionFrom rules' (start + k)) := by
  intro tight
  refine (takes_keyword (by decide)).bind fun _ left less => ?_
  refine (tries_symbol (by decide)).bind fun generator left' le => ?_
  refine tries_functionName.bind fun name i le' => ?_
  refine (takes_parameters (inner.mono (by omega))).bind fun parameters j lt => ?_
  refine (takes_functionBody (inner.mono (by omega)) true).bind fun body j' lt' => ?_
  exact .node (by omega) rfl (by simp)

theorem tries_modifier {text : String} (visible : text.toList ≠ []) (inClass : Bool) :
    Tries k m (modifier text inClass) (modifier text inClass) := by
  intro tight
  refine .ifSeesWord ?_ (.kept rfl (.inr rfl) (Nat.le_refl m))
  refine .peekAfter fun after => .ite ?_ (.kept rfl (.inr rfl) (Nat.le_refl m))
  refine .get fun c d meets size => ?_
  refine (takes_symbol visible).bind fun _ left less => ?_
  refine .seesHiddenSemicolon fun ended => .ite ?_ ?_
  next => exact .set meets (.kept rfl (.inr rfl) (by omega))
  next => exact .kept rfl (.inl rfl) (by omega)

theorem tries_modifiers (inClass : Bool) : Tries k m (modifiers inClass) (modifiers inClass) := by
  intro tight
  refine (tries_modifier (by decide) inClass).bind fun static left le => ?_
  refine (tries_modifier (by decide) inClass).bind fun async left' le' => ?_
  refine (tries_modifier (by decide) inClass).bind fun get i le'' => ?_
  refine .ite ?_ ?_
  next =>
    refine .pureThen (.ite (.pureThen (.kept rfl (.inr rfl) (by omega))) ?_)
    exact (tries_symbol (by decide)).bind fun star j lt => .kept rfl (.inr rfl) (by omega)
  next =>
    refine (tries_modifier (by decide) inClass).bind fun set j lt => ?_
    refine .ite (.pureThen (.kept rfl (.inr rfl) (by omega))) ?_
    exact (tries_symbol (by decide)).bind fun star j' lt' => .kept rfl (.inr rfl) (by omega)

theorem takes_methodFrom (inner : Inner k m rules rules') (start : Nat) {before before' : List Node}
    (same : before' = shift k before) (goesOn : Bool) :
    Takes k m (methodFrom rules start before goesOn) (methodFrom rules' (start + k) before' goesOn) := by
  intro tight
  refine (takes_parameters inner).bind fun parameters left less => ?_
  refine (takes_functionBody (inner.mono (by omega)) goesOn).bind fun body left' less' => ?_
  exact .node (by omega) rfl (by simp [same])

theorem takes_objectMember (inner : Inner k m rules rules') :
    Takes k m (objectMember rules) (objectMember rules') := by
  intro tight
  refine .ifSees (takes_spread inner tight) ?_
  refine .here fun start => ?_
  refine (tries_decorators inner).bind fun marks i le => ?_
  refine (tries_modifiers false).bind fun modified i' le' => ?_
  refine (takes_propertyName (inner.mono (by omega))).bind fun name left less => ?_
  refine .ifSees ?_ ?_
  next => exact (takes_methodFrom (inner.mono (by omega)) start (by simp) false).within (by omega)
  rw [isEmpty_shift, shift_bool]
  refine .require ?_
  refine .ifSymbol (by decide) ?_ ?_
  next =>
    intro left' less'
    refine (inner left' (by omega) _).bind fun value j lt => ?_
    exact .node (by omega) rfl rfl
  rw [kind_shift]
  refine .require ?_
  refine .ifEquals ?_ ?_
  next =>
    refine (takes_symbol (by decide)).bind fun _ left' less' => ?_
    refine (inner left' (by omega) _).bind fun value j lt => ?_
    exact .node (by omega) rfl (by simp)
  next => exact .passed (by simp) (by omega)

theorem takes_object (inner : Inner k m rules rules') : Takes k m (object rules) (object rules') :=
  takes_list (by decide) (by decide) fun _ less => takes_objectMember (inner.mono (by omega))

theorem takes_staticBlock (inner : Inner k m rules rules') : Takes k m (staticBlock rules) (staticBlock rules') := by
  intro tight
  refine .here fun start => ?_
  refine (takes_keyword (by decide)).bind fun _ left less => ?_
  refine (takes_block (inner.mono (by omega))).bind fun body left' less' => ?_
  exact .node (by omega) rfl rfl

theorem takes_classMember (inner : Inner k m rules rules') : Takes k m (classMember rules) (classMember rules') := by
  intro tight
  refine .seesWord fun static => .peekAfter fun after => .ite (takes_staticBlock inner tight) ?_
  refine .here fun start => ?_
  refine (tries_decorators inner).bind fun marks i le => ?_
  refine (tries_modifiers true).bind fun _ i' le' => ?_
  refine (takes_propertyName (inner.mono (by omega))).bind fun name left less => ?_
  refine .ifSees ?_ (.ifEquals ?_ ?_)
  next =>
    refine (takes_methodFrom (inner.mono (by omega)) start (by simp) false).bind fun method left' less' => ?_
    exact (tries_symbol (by decide)).bind fun _ j le'' => .passed rfl (by omega)
  next =>
    refine (takes_symbol (by decide)).bind fun _ left' less' => ?_
    refine (inner left' (by omega) _).bind fun value j lt => ?_
    refine .nodeThen rfl (by simp) fun stop => ?_
    exact (parallel_semicolon true).thenKept fun _ j' le'' => .passed rfl (by omega)
  next =>
    refine .nodeThen rfl (by simp) fun stop => ?_
    exact (parallel_semicolon false).thenKept fun _ j' le'' => .passed rfl (by omega)

theorem takes_classMembers (inner : Inner k m rules rules') {n n' : Nat} (enough : m < n) (enough' : m < n') :
    Takes k m (classMembers rules n) (classMembers rules' n') := by
  intro tight
  induction n generalizing m n' tight with
  | zero => omega
  | succ n ih =>
    obtain ⟨n', rfl⟩ : ∃ i, n' = i + 1 := ⟨n' - 1, by omega⟩
    have rest {left : Nat} (less : left < m) : Takes k left (classMembers rules n) (classMembers rules' n') :=
      ih (inner.mono (by omega)) (by omega) (by omega)
    refine .ifSymbol (by decide) (fun left less => .passed rfl less) ?_
    refine .ifSymbol (by decide) (fun left less => (rest less).within (by omega)) ?_
    refine (takes_classMember inner).bind fun member left less => ?_
    exact (rest less).bind fun members left' less' => .passed rfl (by omega)

theorem takes_classBody (inner : Inner k m rules rules') : Takes k m (classBody rules) (classBody rules') := by
  intro tight
  refine .here fun start => ?_
  refine (takes_symbol (by decide)).bind fun _ left less => ?_
  refine .bound fun n n' enough enough' => ?_
  refine (takes_classMembers (inner.mono (by omega)) enough enough').bind fun members left' less' => ?_
  exact .node (by omega) rfl rfl

theorem tries_className : Tries k m className className := by
  intro tight
  refine .peek fun cs => .seesWord fun extends_ => .ite ?_ ?_
  next => exact takes_word.bind fun name left less => .kept rfl (.inl rfl) (by omega)
  next => exact .kept rfl (.inr rfl) (Nat.le_refl m)

theorem tries_heritage (inner : Inner k m rules rules') :
    Tries k m (classFrom.heritage rules) (classFrom.heritage rules') := by
  intro tight
  refine .here fun start => ?_
  refine .ifKeyword (by decide) ?_ (.kept rfl (.inr rfl) (Nat.le_refl m))
  intro left less
  refine (inner left less _).bind fun parent left' less' => ?_
  exact .nodeThen rfl rfl fun stop => .kept rfl (.inl rfl) (by omega)

theorem takes_classFrom (inner : Inner k m rules rules') (kind : Kind) (start : Nat) {marks marks' : List Node}
    (same : marks' = shift k marks) :
    Takes k m (classFrom rules kind start marks) (classFrom rules' kind (start + k) marks') := by
  intro tight
  refine (takes_keyword (by decide)).bind fun _ left less => ?_
  refine tries_className.bind fun name i le => ?_
  refine (tries_heritage (inner.mono (by omega))).bind fun parent i' le' => ?_
  refine (takes_classBody (inner.mono (by omega))).bind fun body left' less' => ?_
  exact .node (by omega) rfl (by simp [same])

end ClassLinker.Script.Grammar
