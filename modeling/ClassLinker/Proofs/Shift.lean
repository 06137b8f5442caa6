import ClassLinker.Proofs.Table
import ClassLinker.Script.Grammar.Statement

set_option autoImplicit false

namespace ClassLinker.Script

namespace Point

def shift (k : Nat) (p : Point) : Point := { p with offset := p.offset + k }

@[simp] theorem rest_shift (k : Nat) (p : Point) : (p.shift k).rest = p.rest := rfl

@[simp] theorem offset_shift (k : Nat) (p : Point) : (p.shift k).offset = p.offset + k := rfl

@[simp] theorem advance_shift (k n : Nat) (p : Point) : (p.shift k).advance n = (p.advance n).shift k := by
  simp [shift, advance, Nat.add_right_comm]

@[simp] theorem advanceWhile_shift (k : Nat) (p : Point) (inside : Char → Bool) :
    (p.shift k).advanceWhile inside = (p.advanceWhile inside).shift k := by
  simp [advanceWhile]

@[simp] theorem rest_advance (p : Point) (n : Nat) : (p.advance n).rest = p.rest.drop n := rfl

theorem length_advance_lt {p : Point} {c : Char} {rest : List Char} (text : p.rest = c :: rest) (n : Nat) :
    (p.advance (n + 1)).rest.length < p.rest.length := by
  simp only [rest_advance, List.length_drop, text, List.length_cons]
  omega

theorem length_advanceWhile (p : Point) (inside : Char → Bool) :
    (p.advanceWhile inside).rest.length ≤ p.rest.length := by
  simp [advanceWhile]

theorem repeated_shift {step : Point → Option Point} (local_ : ∀ k p, step (p.shift k) = (step p).map (shift k))
    (k : Nat) (p : Point) : (p.shift k).repeated step = (p.repeated step).shift k := by
  have go (bound : List Char) (p : Point) :
      repeated.go step bound (p.shift k) = (repeated.go step bound p).shift k := by
    induction bound generalizing p with
    | nil => rfl
    | cons _ more ih =>
      unfold repeated.go
      rw [local_]
      cases step p with
      | none => rfl
      | some q => exact ih q
  exact go p.rest p

theorem length_repeated {step : Point → Option Point}
    (shorter : ∀ p q, step p = some q → q.rest.length ≤ p.rest.length) (p : Point) :
    (p.repeated step).rest.length ≤ p.rest.length := by
  have go (bound : List Char) (p : Point) : (repeated.go step bound p).rest.length ≤ p.rest.length := by
    induction bound generalizing p with
    | nil => exact Nat.le_refl _
    | cons _ more ih =>
      unfold repeated.go
      cases taken : step p with
      | none => exact Nat.le_refl _
      | some q => exact Nat.le_trans (ih q) (shorter p q taken)
  exact go p.rest p

end Point

namespace Lexeme

def Local (recognise : Point → Option Point) : Prop :=
  ∀ k p, recognise (p.shift k) = (recognise p).map (Point.shift k)

def Shortens (recognise : Point → Option Point) : Prop :=
  ∀ p q, recognise p = some q → q.rest.length < p.rest.length

theorem local_codePoint? : Local codePoint? := by
  intro k p
  unfold codePoint?
  simp only [Point.rest_shift, Point.advance_shift, Point.advanceWhile_shift]
  split <;> (try split) <;> rfl

theorem local_wordPart? : Local wordPart? := by
  intro k p
  unfold wordPart?
  simp only [Point.rest_shift, Point.advance_shift]
  split
  next => exact local_codePoint? k _
  next => split <;> rfl
  next => rfl

theorem local_word? : Local word? := by
  intro k p
  unfold word?
  rw [Point.rest_shift, local_wordPart?]
  split
  next => rfl
  next =>
    rw [Option.map_map, Option.map_map]
    congr 1
    funext q
    exact Point.repeated_shift local_wordPart? k q

theorem local_privateName? : Local privateName? := by
  intro k p
  unfold privateName?
  simp only [Point.rest_shift, Point.advance_shift]
  split
  next => exact local_word? k _
  next => rfl

theorem local_digits? (digit : Char → Bool) : Local (digits? digit) := by
  intro k p
  unfold digits?
  simp only [Point.rest_shift, Point.advance_shift]
  split <;> (try split) <;> rfl

theorem local_exponent? : Local exponent? := by
  intro k p
  unfold exponent?
  simp only [Point.rest_shift, Point.advance_shift]
  split
  next =>
    split
    next => exact local_digits? _ k _
    next => rfl
  next => rfl

theorem pastExponent_shift (k : Nat) (p : Point) : pastExponent (p.shift k) = (pastExponent p).shift k := by
  unfold pastExponent
  rw [local_exponent?]
  cases exponent? p <;> rfl

theorem bigSuffix_shift (k : Nat) (p : Point) : bigSuffix (p.shift k) = (bigSuffix p).shift k := by
  unfold bigSuffix
  simp only [Point.rest_shift, Point.advance_shift]
  split <;> rfl

theorem local_decimal? : Local decimal? := by
  intro k p
  unfold decimal?
  rw [local_digits?, Option.map_map, Option.map_map]
  congr 1
  funext q
  simp only [Function.comp_apply, Point.rest_shift, Point.offset_shift, Point.advance_shift, Nat.add_sub_add_right,
    local_digits? _ k, local_exponent? k, bigSuffix_shift]
  split
  next =>
    split
    next =>
      cases digits? Char.isDigit (q.advance 1) <;> exact pastExponent_shift k _
    next => cases exponent? q <;> rfl
  next => rfl

theorem local_number? : Local number? := by
  intro k p
  unfold number?
  simp only [Point.rest_shift, Point.advance_shift]
  split
  next =>
    rw [local_digits?, Option.map_map, Option.map_map]
    congr 1
    funext q
    exact pastExponent_shift k q
  next letter _ _ =>
    cases radix? letter with
    | none => exact local_decimal? k p
    | some digit =>
      simp only [Option.bind_some, local_digits? digit k]
      cases digits? digit (p.advance 2) with
      | none => exact local_decimal? k p
      | some q => exact congrArg some (bigSuffix_shift k q)
  next => exact local_decimal? k p

theorem local_escape? : Local escape? := by
  intro k p
  unfold escape?
  simp only [Point.rest_shift, Point.advance_shift]
  split <;> (try split) <;> (try split) <;> first | rfl | exact local_codePoint? k _

theorem local_quoted? {piece : Char → Point → Option Point} (pieces : ∀ quote, Local (piece quote)) :
    Local (quoted? piece) := by
  intro k p
  unfold quoted?
  simp only [Point.rest_shift, Point.advance_shift, Point.repeated_shift (pieces _)]
  split
  next => rfl
  next => split <;> (try split) <;> rfl

theorem local_stringPiece? (quote : Char) : Local (stringPiece? quote) := by
  intro k p
  unfold stringPiece?
  simp only [Point.rest_shift, Point.advance_shift]
  split
  next => rfl
  next =>
    split
    next => rfl
    next =>
      split
      next => exact local_escape? k p
      next => rfl

theorem local_string? : Local string? := local_quoted? local_stringPiece?

theorem local_regexPiece? : Local regexPiece? := by
  intro k p
  unfold regexPiece?
  simp only [Point.rest_shift, Point.advance_shift]
  split
  next => rw [Option.map_map]; rfl
  all_goals first | rfl | split <;> rfl

theorem local_regex? : Local regex? := by
  intro k p
  unfold regex?
  simp only [Point.rest_shift, Point.advance_shift, Point.advanceWhile_shift, Point.repeated_shift local_regexPiece?]
  split <;> (try split) <;> rfl

theorem local_markupName? : Local markupName? := by
  intro k p
  unfold markupName?
  simp only [Point.rest_shift, Point.advanceWhile_shift]
  split
  next => rfl
  next => exact local_word? k p

theorem local_closedRun? (inside : Char → Bool) (most : Nat) : Local (closedRun? inside most) := by
  intro k p
  unfold closedRun?
  simp only [Point.rest_shift, Point.advance_shift]
  rw [apply_ite (Option.map (Point.shift k))]
  rfl

theorem local_reference? : Local reference? := by
  intro k p
  unfold reference?
  simp only [Point.rest_shift, Point.advance_shift]
  split
  next => split <;> exact local_closedRun? _ _ k _
  next => exact local_closedRun? _ _ k _
  next => rfl

theorem local_text? : Local text? := by
  intro k p
  unfold text?
  simp only [Point.rest_shift, Point.advance_shift]
  split <;> rfl

theorem local_markupStringPiece? (quote : Char) : Local (markupStringPiece? quote) := by
  intro k p
  unfold markupStringPiece?
  simp only [Point.rest_shift, Point.advance_shift, local_reference? k p]
  split
  next => rfl
  next =>
    cases reference? p with
    | some q => rfl
    | none =>
      simp only [Option.map_none]
      split <;> (try split) <;> rfl
  next => split <;> rfl

theorem local_markupString? : Local markupString? := local_quoted? local_markupStringPiece?

theorem shortens_codePoint? : Shortens codePoint? := by
  intro p q taken
  unfold codePoint? at taken
  split at taken
  next text =>
    have run := Point.length_advanceWhile (p.advance 1) isHex
    dsimp only at taken
    split at taken <;> cases taken
    simp [text] at run ⊢
    omega
  next text =>
    split at taken <;> cases taken
    exact Point.length_advance_lt text 3
  next => cases taken

theorem shortens_wordPart? : Shortens wordPart? := by
  intro p q taken
  unfold wordPart? at taken
  split at taken
  next text =>
    have shorter := shortens_codePoint? _ _ taken
    simp [text] at shorter ⊢
    omega
  next text =>
    split at taken <;> cases taken
    exact Point.length_advance_lt text _
  next => cases taken

theorem shortens_word? : Shortens word? := by
  intro p q taken
  unfold word? at taken
  split at taken
  next => cases taken
  next =>
    obtain ⟨r, part, rfl⟩ := Option.map_eq_some_iff.1 taken
    have more := Point.length_repeated (fun p q step => Nat.le_of_lt (shortens_wordPart? p q step)) r
    exact Nat.lt_of_le_of_lt more (shortens_wordPart? _ _ part)

theorem shortens_privateName? : Shortens privateName? := by
  intro p q taken
  unfold privateName? at taken
  split at taken
  next text =>
    have shorter := shortens_word? _ _ taken
    simp [text] at shorter ⊢
    omega
  next => cases taken

theorem shortens_digits? (digit : Char → Bool) : Shortens (digits? digit) := by
  intro p q taken
  unfold digits? at taken
  split at taken
  next text =>
    split at taken <;> cases taken
    exact Point.length_advance_lt text _
  next => cases taken

theorem shortens_exponent? : Shortens exponent? := by
  intro p q taken
  unfold exponent? at taken
  split at taken
  next text =>
    split at taken
    next =>
      have shorter := shortens_digits? _ _ _ taken
      simp [text] at shorter ⊢
      omega
    next => cases taken
  next => cases taken

theorem length_pastExponent (p : Point) : (pastExponent p).rest.length ≤ p.rest.length := by
  unfold pastExponent
  cases taken : exponent? p with
  | none => exact Nat.le_refl _
  | some q => exact Nat.le_of_lt (shortens_exponent? _ _ taken)

theorem length_bigSuffix (p : Point) : (bigSuffix p).rest.length ≤ p.rest.length := by
  unfold bigSuffix
  split <;> simp

theorem shortens_decimal? : Shortens decimal? := by
  intro p q taken
  unfold decimal? at taken
  obtain ⟨r, digits, rfl⟩ := Option.map_eq_some_iff.1 taken
  have shorter := shortens_digits? _ _ _ digits
  -- what follows the digits may be empty
  refine Nat.lt_of_le_of_lt ?_ shorter
  split
  next =>
    split
    next =>
      refine Nat.le_trans (length_pastExponent _) ?_
      cases fraction : digits? Char.isDigit (r.advance 1) with
      | none => simp
      | some q =>
        have := shortens_digits? _ _ _ fraction
        simp at this ⊢
        omega
    next =>
      cases exponent : exponent? r with
      | none => exact length_bigSuffix r
      | some q => exact Nat.le_of_lt (shortens_exponent? _ _ exponent)
  next => exact length_bigSuffix r

theorem shortens_number? : Shortens number? := by
  intro p q taken
  unfold number? at taken
  split at taken
  next text =>
    obtain ⟨r, digits, rfl⟩ := Option.map_eq_some_iff.1 taken
    have shorter := shortens_digits? _ _ _ digits
    have more := length_pastExponent r
    simp [text] at shorter ⊢
    omega
  next text =>
    split at taken
    next r digits =>
      cases taken
      obtain ⟨digit, _, digits⟩ := Option.bind_eq_some_iff.1 digits
      have shorter := shortens_digits? _ _ _ digits
      have more := length_bigSuffix r
      simp [text] at shorter ⊢
      omega
    next => exact shortens_decimal? _ _ taken
  next => exact shortens_decimal? _ _ taken

theorem shortens_escape? : Shortens escape? := by
  intro p q taken
  unfold escape? at taken
  split at taken
  next text => split at taken <;> cases taken; exact Point.length_advance_lt text _
  next => cases taken
  next text =>
    have shorter := shortens_codePoint? _ _ taken
    simp [text] at shorter ⊢
    omega
  next text => split at taken <;> (try split at taken) <;> cases taken <;> exact Point.length_advance_lt text _
  next => cases taken

theorem shortens_quoted? {piece : Char → Point → Option Point} (pieces : ∀ quote, Shortens (piece quote)) :
    Shortens (quoted? piece) := by
  intro p q taken
  unfold quoted? at taken
  split at taken
  next => cases taken
  next quote _ text =>
    have more := Point.length_repeated (fun p q step => Nat.le_of_lt (pieces quote p q step)) (p.advance 1)
    split at taken
    next =>
      dsimp only at taken
      split at taken <;> cases taken
      simp [text] at more ⊢
      omega
    next => cases taken

theorem shortens_stringPiece? (quote : Char) : Shortens (stringPiece? quote) := by
  intro p q taken
  unfold stringPiece? at taken
  split at taken
  next => cases taken
  next text =>
    split at taken
    next => cases taken
    next =>
      split at taken
      next => exact shortens_escape? _ _ taken
      next => cases taken; exact Point.length_advance_lt text 0

theorem shortens_string? : Shortens string? := shortens_quoted? shortens_stringPiece?

theorem shortens_regexPiece? : Shortens regexPiece? := by
  intro p q taken
  unfold regexPiece? at taken
  split at taken
  next text =>
    obtain ⟨n, _, rfl⟩ := Option.map_eq_some_iff.1 taken
    exact Point.length_advance_lt text n
  next text => split at taken <;> cases taken; exact Point.length_advance_lt text _
  next text => split at taken <;> cases taken; exact Point.length_advance_lt text _
  next => cases taken

theorem shortens_regex? : Shortens regex? := by
  intro p q taken
  unfold regex? at taken
  split at taken
  next => cases taken
  next text =>
    have more := Point.length_repeated (fun p q step => Nat.le_of_lt (shortens_regexPiece? p q step)) (p.advance 1)
    dsimp only at taken
    split at taken <;> cases taken
    refine Nat.lt_of_le_of_lt (Point.length_advanceWhile _ _) ?_
    simp [text] at more ⊢
    omega
  next => cases taken

theorem shortens_markupName? : Shortens markupName? := by
  intro p q taken
  unfold markupName? at taken
  dsimp only at taken
  split at taken
  next dashed =>
    cases taken
    refine Nat.lt_of_le_of_lt (Point.length_advanceWhile _ _) ?_
    cases text : p.rest with
    | nil => simp [text] at dashed
    | cons c rest =>
      have part : isMarkupPart c = true := by simp_all
      have run : (p.rest.takeWhile isMarkupPart).length = (rest.takeWhile isMarkupPart).length + 1 := by
        rw [text, List.takeWhile_cons_of_pos part, List.length_cons]
      rw [Point.advanceWhile, run, ← text]
      exact Point.length_advance_lt text _
  next => exact shortens_word? _ _ taken

theorem shortens_closedRun? (inside : Char → Bool) (most : Nat) : Shortens (closedRun? inside most) := by
  intro p q taken
  unfold closedRun? at taken
  dsimp only at taken
  split at taken
  next closed =>
    cases taken
    have run : (p.rest.takeWhile inside).length ≤ p.rest.length := (List.takeWhile_sublist _).length_le
    simp at closed ⊢
    omega
  next => cases taken

theorem shortens_reference? : Shortens reference? := by
  intro p q taken
  unfold reference? at taken
  split at taken
  next text =>
    split at taken
    all_goals
      have shorter := shortens_closedRun? _ _ _ _ taken
      simp [text] at shorter ⊢
      omega
  next text =>
    have shorter := shortens_closedRun? _ _ _ _ taken
    simp [text] at shorter ⊢
    omega
  next => cases taken

theorem shortens_markupStringPiece? (quote : Char) : Shortens (markupStringPiece? quote) := by
  intro p q taken
  unfold markupStringPiece? at taken
  split at taken
  next => cases taken
  next text =>
    split at taken
    next reference => cases taken; exact shortens_reference? _ _ reference
    next =>
      split at taken
      next => split at taken <;> cases taken; exact Point.length_advance_lt text _
      next => cases taken
  next text => split at taken <;> cases taken; exact Point.length_advance_lt text _

theorem shortens_markupString? : Shortens markupString? := shortens_quoted? shortens_markupStringPiece?

theorem markupText_counts {line : Bool} {n : Nat} {cs : List Char} {size : Nat}
    (counted : markupText false line n cs = (true, size)) : n < size ∧ size ≤ n + cs.length := by
  -- text that counts has been passed, so that at least one character was
  have grows (counts line : Bool) (n : Nat) (cs : List Char) :
      n ≤ (markupText counts line n cs).2 ∧ (markupText counts line n cs).2 ≤ n + cs.length := by
    fun_induction markupText counts line n cs <;> simp_all <;> omega
  induction cs generalizing line n with
  | nil => simp [markupText] at counted
  | cons c rest ih =>
    unfold markupText at counted
    split at counted
    next => cases counted
    next =>
      dsimp only at counted
      split at counted
      next =>
        have := ih counted
        simp
        omega
      next =>
        split at counted
        next =>
          have := ih counted
          simp
          omega
        next =>
          have := grows true false (n + 1) rest
          rw [counted] at this
          simp at this ⊢
          omega

theorem shortens_text? : Shortens text? := by
  intro p q taken
  unfold text? at taken
  split at taken
  next counted =>
    cases taken
    have size := markupText_counts counted
    simp
    omega
  next => cases taken

end Lexeme

class Located (α : Type) where
  shift : Nat → α → α

namespace Node

mutual

def shiftBy (k : Nat) : Node → Node
  | .mk kind s e cs => .mk kind (s + k) (e + k) (shiftAll k cs)

def shiftAll (k : Nat) : List Node → List Node
  | [] => []
  | n :: rest => shiftBy k n :: shiftAll k rest

end

theorem shiftAll_eq_map (k : Nat) (ns : List Node) : shiftAll k ns = ns.map (shiftBy k) := by
  induction ns with
  | nil => rfl
  | cons n rest ih => rw [shiftAll, List.map_cons, ih]

end Node

instance : Located Node := ⟨Node.shiftBy⟩

instance {α : Type} [Located α] : Located (List α) := ⟨fun k => List.map (Located.shift k)⟩

instance {α : Type} [Located α] : Located (Option α) := ⟨fun k => Option.map (Located.shift k)⟩

instance : Located Bool := ⟨fun _ b => b⟩

instance : Located Unit := ⟨fun _ u => u⟩

instance : Located Kind := ⟨fun _ kind => kind⟩

instance {α β : Type} [Located α] [Located β] : Located (α × β) :=
  ⟨fun k x => (Located.shift k x.1, Located.shift k x.2)⟩

instance : Located Grammar.Slots := ⟨fun k list => { list with items := Located.shift k list.items }⟩

namespace Located

variable (k : Nat)

@[simp] theorem shift_nil {α : Type} [Located α] : shift k ([] : List α) = [] := rfl

@[simp] theorem shift_cons {α : Type} [Located α] (x : α) (rest : List α) :
    shift k (x :: rest) = shift k x :: shift k rest := rfl

@[simp] theorem shift_append {α : Type} [Located α] (xs ys : List α) :
    shift k (xs ++ ys) = shift k xs ++ shift k ys := List.map_append

@[simp] theorem shift_bool (b : Bool) : shift k b = b := rfl

@[simp] theorem items_shift (list : Grammar.Slots) : (shift k list).items = shift k list.items := rfl

@[simp] theorem gaps_shift (list : Grammar.Slots) : (shift k list).gaps = list.gaps := rfl

@[simp] theorem trailing_shift (list : Grammar.Slots) : (shift k list).trailing = list.trailing := rfl

@[simp] theorem shift_node (kind : Kind) (s e : Nat) (cs : List Node) :
    shift k (Node.mk kind s e cs) = .mk kind (s + k) (e + k) (shift k cs) :=
  congrArg (Node.mk kind (s + k) (e + k)) (Node.shiftAll_eq_map k cs)

@[simp] theorem isEmpty_shift {α : Type} [Located α] (xs : List α) : (shift k xs).isEmpty = xs.isEmpty :=
  List.isEmpty_map

@[simp] theorem length_shift {α : Type} [Located α] (xs : List α) : (shift k xs).length = xs.length :=
  List.length_map ..

@[simp] theorem kind_shift (n : Node) : (shift k n).kind = n.kind := by
  cases n; simp [Node.kind]

theorem all_shift (p : Kind → Bool) (ns : List Node) :
    (shift k ns).all (fun n => p n.kind) = ns.all fun n => p n.kind := by
  induction ns with
  | nil => rfl
  | cons n rest ih => simp [ih]

theorem getLast_shift (ns : List Node) (nonempty : ns ≠ []) (nonempty' : shift k ns ≠ []) :
    (shift k ns).getLast nonempty' = shift k (ns.getLast nonempty) :=
  List.getLast_map ..

@[simp] theorem start_shift (n : Node) : (shift k n).start = n.start + k := by
  cases n; simp [Node.start]

@[simp] theorem stop_shift (n : Node) : (shift k n).stop = n.stop + k := by
  cases n; simp [Node.stop]

@[simp] theorem children_shift (n : Node) : (shift k n).children = shift k n.children := by
  cases n; simp [Node.children]

@[simp] theorem withKind_shift (kind : Kind) (n : Node) : (shift k n).withKind kind = shift k (n.withKind kind) := by
  cases n; simp [Node.withKind]

@[simp] theorem shift_spanning (kind : Kind) (first last : Node) (cs : List Node) :
    shift k (Node.spanning kind first last cs) = .spanning kind (shift k first) (shift k last) (shift k cs) := by
  simp [Node.spanning]

end Located

namespace Node

open Located

mutual

theorem pattern?_shift (k : Nat) (place : Place) : (n : Node) →
    pattern? place (shift k n) = (pattern? place n).map (shift k)
  | .mk kind s e cs => by
    rw [shift_node]
    cases kind
    case pair =>
      match cs with
      | [] | [_] | _ :: _ :: _ :: _ => rfl
      | [key, value] =>
        simp only [shift_cons, shift_nil, pattern?]
        rw [pattern?_shift k .binding value]
        split
        next => cases pattern? .binding value <;> simp
        next => rfl
    -- these are read again inside
    case object | array | spreadElement =>
      simp only [pattern?]
      rw [patterns?_shift k _ cs]
      split
      next => rfl
      next => cases patterns? _ cs <;> simp
    case assignmentExpression => cases cs <;> simp [pattern?, apply_ite (Option.map (shift k))]
    case shorthandProperty | shorthandDefault | identifier | undefined | memberExpression | subscriptExpression |
        objectPattern | arrayPattern => simp [pattern?, apply_ite (Option.map (shift k))]
    all_goals rfl

theorem patterns?_shift (k : Nat) (place : Place) : (ns : List Node) →
    patterns? place (shift k ns) = (patterns? place ns).map (shift k)
  | [] => rfl
  | n :: rest => by
    rw [shift_cons, patterns?, patterns?, pattern?_shift k place n, patterns?_shift k place rest]
    cases pattern? place n <;> cases patterns? place rest <;> rfl

end

theorem settled_shift (k : Nat) (n : Node) : (shift k n).settled = n.settled := by
  unfold settled
  rw [kind_shift, children_shift, all_shift k fun kind => kind ≠ .shorthandDefault]

mutual

theorem all_shifted (k : Nat) (p : Node → Bool) : (n : Node) → (shift k n).all p = n.all fun n => p (shift k n)
  | .mk kind s e cs => by
    rw [shift_node, all, all, allOf_shifted k p cs, shift_node]

theorem allOf_shifted (k : Nat) (p : Node → Bool) : (ns : List Node) →
    allOf p (shift k ns) = allOf (fun n => p (shift k n)) ns
  | [] => rfl
  | n :: rest => by rw [shift_cons, allOf, allOf, all_shifted k p n, allOf_shifted k p rest]

end

theorem allOf_append (p : Node → Bool) (xs ys : List Node) : allOf p (xs ++ ys) = (allOf p xs && allOf p ys) := by
  induction xs with
  | nil => rfl
  | cons x rest ih => rw [List.cons_append, allOf, allOf, ih, Bool.and_assoc]

end Node

end ClassLinker.Script
