import ClassLinker.Proofs.Parallel
import ClassLinker.Proofs.SiteOrder

set_option autoImplicit false

/-!
Where the nodes of a parsed source stand. Rules read forward, so what a rule yields lies between the place where
it starts to read and the place where it stops, part after part, and every node starts and stops between two
characters.
-/

namespace ClassLinker.Script

theorem isBoundary_cut (before after : List Char) :
    Text.isBoundary (before ++ after) (Text.byteSize before) = true := by
  simp [Text.isBoundary]

namespace Point

/-- The second point is the first one some characters later. -/
def Reaches (p q : Point) : Prop := ∃ n, q = p.advance n

theorem reaches_advance (p : Point) (n : Nat) : p.Reaches (p.advance n) := ⟨n, rfl⟩

theorem reaches_advanceWhile (p : Point) (inside : Char → Bool) : p.Reaches (p.advanceWhile inside) := ⟨_, rfl⟩

namespace Reaches

variable {p q r : Point}

theorem refl (p : Point) : p.Reaches p := ⟨0, p.advance_zero.symm⟩

theorem trans (first : p.Reaches q) (second : q.Reaches r) : p.Reaches r := by
  obtain ⟨m, rfl⟩ := first
  obtain ⟨n, rfl⟩ := second
  exact ⟨m + n, by simp [advance, List.take_add, Nat.add_assoc]⟩

theorem offset_le (reaches : p.Reaches q) : p.offset ≤ q.offset := by
  obtain ⟨n, rfl⟩ := reaches
  exact Nat.le_add_right _ _

theorem offset_of_start {source : List Char} (reaches : Reaches ⟨source, 0⟩ p) :
    p.offset ≤ Text.byteSize source ∧ Text.isBoundary source p.offset = true := by
  obtain ⟨n, rfl⟩ := reaches
  have size := Text.byteSize_append (source.take n) (source.drop n)
  have boundary := isBoundary_cut (source.take n) (source.drop n)
  rw [List.take_append_drop] at size boundary
  refine ⟨?_, by simpa [advance] using boundary⟩
  simp only [advance]
  omega

end Reaches

theorem reaches_repeated {step : Point → Option Point} (each : ∀ p q, step p = some q → p.Reaches q) (p : Point) :
    p.Reaches (p.repeated step) := by
  have go (cs : List Char) (p : Point) : p.Reaches (repeated.go step cs p) := by
    induction cs generalizing p with
    | nil => exact .refl p
    | cons c more ih =>
      unfold repeated.go
      split
      next q taken => exact (each p q taken).trans (ih q)
      next => exact .refl p
  exact go p.rest p

end Point

namespace Lexeme

open Point (Reaches reaches_advance reaches_advanceWhile reaches_repeated)

def Advances (recognise : Point → Option Point) : Prop := ∀ p q, recognise p = some q → p.Reaches q

theorem advances_codePoint? : Advances codePoint? := by
  intro p q taken
  unfold codePoint? at taken
  split at taken
  next =>
    dsimp only at taken
    split at taken <;> cases taken
    exact ((reaches_advance p 1).trans (reaches_advanceWhile _ _)).trans (reaches_advance _ 1)
  next =>
    split at taken <;> cases taken
    exact reaches_advance p 4
  next => cases taken

theorem advances_wordPart? : Advances wordPart? := by
  intro p q taken
  unfold wordPart? at taken
  split at taken
  next => exact (reaches_advance p 2).trans (advances_codePoint? _ _ taken)
  next =>
    split at taken <;> cases taken
    exact reaches_advance p 1
  next => cases taken

theorem advances_word? : Advances word? := by
  intro p q taken
  unfold word? at taken
  split at taken
  next => cases taken
  next =>
    obtain ⟨r, part, rfl⟩ := Option.map_eq_some_iff.1 taken
    exact (advances_wordPart? p r part).trans (reaches_repeated advances_wordPart? r)

theorem advances_privateName? : Advances privateName? := by
  intro p q taken
  unfold privateName? at taken
  split at taken
  next => exact (reaches_advance p 1).trans (advances_word? _ _ taken)
  next => cases taken

theorem advances_digits? (digit : Char → Bool) : Advances (digits? digit) := by
  intro p q taken
  unfold digits? at taken
  split at taken
  next =>
    split at taken <;> cases taken
    exact reaches_advance p _
  next => cases taken

theorem advances_exponent? : Advances exponent? := by
  intro p q taken
  unfold exponent? at taken
  split at taken
  next =>
    split at taken
    next => exact (reaches_advance p _).trans (advances_digits? _ _ _ taken)
    next => cases taken
  next => cases taken

theorem reaches_getD {recognise : Point → Option Point} (advances : Advances recognise) {p q : Point}
    (other : p.Reaches q) : p.Reaches ((recognise p).getD q) := by
  cases taken : recognise p with
  | none => exact other
  | some r => exact advances p r taken

theorem reaches_pastExponent (p : Point) : p.Reaches (pastExponent p) := reaches_getD advances_exponent? (.refl p)

theorem reaches_bigSuffix (p : Point) : p.Reaches (bigSuffix p) := by
  unfold bigSuffix
  split
  next => exact reaches_advance p 1
  next => exact .refl p

theorem advances_decimal? : Advances decimal? := by
  intro p q taken
  unfold decimal? at taken
  obtain ⟨r, digits, rfl⟩ := Option.map_eq_some_iff.1 taken
  refine (advances_digits? _ p r digits).trans ?_
  split
  next =>
    split
    next =>
      have fraction := reaches_getD (advances_digits? Char.isDigit) (.refl (r.advance 1))
      exact ((reaches_advance r 1).trans fraction).trans (reaches_pastExponent _)
    next => exact reaches_getD advances_exponent? (reaches_bigSuffix r)
  next => exact reaches_bigSuffix r

theorem advances_number? : Advances number? := by
  intro p q taken
  unfold number? at taken
  split at taken
  next =>
    obtain ⟨r, digits, rfl⟩ := Option.map_eq_some_iff.1 taken
    exact ((reaches_advance p 1).trans (advances_digits? _ _ r digits)).trans (reaches_pastExponent r)
  next =>
    split at taken
    next r digits =>
      cases taken
      obtain ⟨digit, _, digits⟩ := Option.bind_eq_some_iff.1 digits
      exact ((reaches_advance p 2).trans (advances_digits? _ _ r digits)).trans (reaches_bigSuffix r)
    next => exact advances_decimal? _ _ taken
  next => exact advances_decimal? _ _ taken

theorem advances_escape? : Advances escape? := by
  intro p q taken
  unfold escape? at taken
  split at taken
  next => split at taken <;> cases taken; exact reaches_advance p 4
  next => cases taken
  next => exact (reaches_advance p 2).trans (advances_codePoint? _ _ taken)
  next => split at taken <;> (try split at taken) <;> cases taken <;> exact reaches_advance p _
  next => cases taken

theorem advances_quoted? {piece : Char → Point → Option Point} (pieces : ∀ quote, Advances (piece quote)) :
    Advances (quoted? piece) := by
  intro p q taken
  unfold quoted? at taken
  split at taken
  next => cases taken
  next quote _ _ =>
    split at taken
    next =>
      dsimp only at taken
      split at taken <;> cases taken
      exact ((reaches_advance p 1).trans (reaches_repeated (pieces quote) _)).trans (reaches_advance _ 1)
    next => cases taken

theorem advances_stringPiece? (quote : Char) : Advances (stringPiece? quote) := by
  intro p q taken
  unfold stringPiece? at taken
  split at taken
  next => cases taken
  next =>
    split at taken
    next => cases taken
    next =>
      split at taken
      next => exact advances_escape? _ _ taken
      next => cases taken; exact reaches_advance p 1

theorem advances_string? : Advances string? := advances_quoted? advances_stringPiece?

theorem advances_regexPiece? : Advances regexPiece? := by
  intro p q taken
  unfold regexPiece? at taken
  split at taken
  next =>
    obtain ⟨n, _, rfl⟩ := Option.map_eq_some_iff.1 taken
    exact reaches_advance p _
  next => split at taken <;> cases taken; exact reaches_advance p 2
  next => split at taken <;> cases taken; exact reaches_advance p 1
  next => cases taken

theorem advances_regex? : Advances regex? := by
  intro p q taken
  unfold regex? at taken
  split at taken
  next => cases taken
  next =>
    dsimp only at taken
    split at taken <;> cases taken
    have pieces := (reaches_advance p 1).trans (reaches_repeated advances_regexPiece? _)
    exact (pieces.trans (reaches_advance _ 1)).trans (reaches_advanceWhile _ _)
  next => cases taken

theorem advances_markupName? : Advances markupName? := by
  intro p q taken
  unfold markupName? at taken
  dsimp only at taken
  split at taken
  next =>
    cases taken
    exact (reaches_advanceWhile p _).trans (reaches_advanceWhile _ _)
  next => exact advances_word? _ _ taken

theorem advances_closedRun? (inside : Char → Bool) (most : Nat) : Advances (closedRun? inside most) := by
  intro p q taken
  unfold closedRun? at taken
  dsimp only at taken
  split at taken <;> cases taken
  exact (reaches_advance p _).trans (reaches_advance _ 1)

theorem advances_reference? : Advances reference? := by
  intro p q taken
  unfold reference? at taken
  split at taken
  next => split at taken <;> exact (reaches_advance p _).trans (advances_closedRun? _ _ _ _ taken)
  next => exact (reaches_advance p 1).trans (advances_closedRun? _ _ _ _ taken)
  next => cases taken

theorem advances_text? : Advances text? := by
  intro p q taken
  unfold text? at taken
  split at taken
  next => cases taken; exact reaches_advance p _
  next => cases taken

theorem advances_markupStringPiece? (quote : Char) : Advances (markupStringPiece? quote) := by
  intro p q taken
  unfold markupStringPiece? at taken
  split at taken
  next => cases taken
  next =>
    split at taken
    next reference => cases taken; exact advances_reference? _ _ reference
    next =>
      split at taken
      next => split at taken <;> cases taken; exact reaches_advance p 2
      next => cases taken
  next => split at taken <;> cases taken; exact reaches_advance p 1

theorem advances_markupString? : Advances markupString? := advances_quoted? advances_markupStringPiece?

end Lexeme

namespace Cursor

open Point (reaches_advance reaches_advanceWhile)

theorem skipGap_eq (gap : Gap) (n : Nat) (cs : List Char) :
    ∃ k, skipGap gap n cs = (cs.drop k, n + Text.byteSize (cs.take k)) := by
  have one {c : Char} {rest : List Char} {n : Nat} {left : List Char × Nat}
      (later : ∃ k, left = (rest.drop k, n + c.utf8Size + Text.byteSize (rest.take k))) :
      ∃ k, left = ((c :: rest).drop k, n + Text.byteSize ((c :: rest).take k)) := by
    obtain ⟨k, rfl⟩ := later
    exact ⟨k + 1, by simp [Text.byteSize, Nat.add_assoc]⟩
  -- each step passes one character, or the two of a comment's mark
  fun_induction skipGap gap n cs with
  | case1 => exact ⟨0, rfl⟩
  | case2 _ _ _ _ ih => exact one ih
  | case3 _ _ _ _ ih => exact one ih
  | case4 _ _ ih => exact one (one ih)
  | case5 _ _ _ _ ih => exact one ih
  | case6 _ _ ih => exact one (one ih)
  | case7 _ _ _ ih => exact one (one ih)
  | case8 => exact ⟨0, rfl⟩
  | case9 _ _ _ _ _ _ ih => exact one ih
  | case10 => exact ⟨0, rfl⟩

theorem reaches_skip (c : Cursor) : c.toPoint.Reaches c.skip.toPoint := by
  obtain ⟨k, same⟩ := skipGap_eq .blanks 0 c.rest
  exact ⟨k, by simp [skip, same, moveTo, Point.advance]⟩

theorem reaches_pastComment? {c d : Cursor} (past : c.pastComment? = some d) : c.toPoint.Reaches d.toPoint := by
  unfold pastComment? at past
  dsimp only at past
  split at past
  next =>
    cases past
    exact (reaches_advanceWhile _ _).trans (reaches_advanceWhile _ _)
  next =>
    split at past <;> cases past
    exact (reaches_advanceWhile _ _).trans (reaches_advance _ _)
  next => cases past

theorem reaches_hiddenSemicolon? {goesOn : Bool} {n : Nat} {c d : Cursor}
    (ends : c.hiddenSemicolon? goesOn n = some d) : c.toPoint.Reaches d.toPoint := by
  induction n generalizing c with
  | zero => cases ends
  | succ n ih =>
    unfold hiddenSemicolon? at ends
    split at ends
    next =>
      cases ends
      exact .refl _
    next =>
      obtain ⟨e, past, ends⟩ := Option.bind_eq_some_iff.1 ends
      exact (reaches_pastComment? past).trans (ih ends)

end Cursor

/-- The nodes follow each other between two offsets. They and all below them start and stop between characters. -/
structure Spans (source : List Char) (lo hi : Nat) (ns : List Node) : Prop where
  placed : Node.placedIn lo hi ns = true
  bounded : Node.allOf (fun n => Text.isBoundary source n.start && Text.isBoundary source n.stop) ns = true

namespace Spans

variable {source : List Char} {lo lo' mid hi hi' : Nat} {n : Node} {ns ms : List Node} {kind : Kind}

theorem nil : Spans source lo hi [] := ⟨rfl, rfl⟩

theorem widen (spans : Spans source lo hi ns) (low : lo' ≤ lo) (high : hi ≤ hi') : Spans source lo' hi' ns :=
  ⟨Node.placedIn_widen spans.placed low high, spans.bounded⟩

theorem sublist (spans : Spans source lo hi ns) (part : ms.Sublist ns) : Spans source lo hi ms :=
  ⟨Node.placedIn_sublist spans.placed part,
    Node.allOf_iff.2 fun n member => Node.allOf_iff.1 spans.bounded n (part.subset member)⟩

theorem append (left : Spans source lo mid ns) (right : Spans source mid hi ms) (low : lo ≤ mid) (high : mid ≤ hi) :
    Spans source lo hi (ns ++ ms) := by
  refine ⟨Node.placedIn_append left.placed right.placed high low, Node.allOf_iff.2 fun n member => ?_⟩
  rcases List.mem_append.1 member with member | member
  · exact Node.allOf_iff.1 left.bounded n member
  · exact Node.allOf_iff.1 right.bounded n member

theorem singleton_iff {s e : Nat} :
    Spans source lo hi [.mk kind s e ns] ↔ lo ≤ s ∧ s ≤ e ∧ e ≤ hi ∧ Text.isBoundary source s = true ∧
      Text.isBoundary source e = true ∧ Spans source s e ns := by
  constructor
  · intro spans
    have placed := Node.placed_iff.1 (Node.placedIn_cons.1 spans.placed).1
    have bounded := spans.bounded
    simp only [Node.allOf, Node.all, Node.start, Node.stop, Bool.and_eq_true, Bool.and_true] at placed bounded
    exact ⟨placed.1, placed.2.1, placed.2.2.1, bounded.1.1, bounded.1.2, placed.2.2.2, bounded.2⟩
  · rintro ⟨low, width, high, starts, stops, inner⟩
    refine ⟨Node.placedIn_singleton (Node.placed_iff.2 ⟨low, width, high, inner.placed⟩), ?_⟩
    simpa [Node.allOf, Node.all, Node.start, Node.stop, starts, stops] using inner.bounded

theorem cons_iff : Spans source lo hi (n :: ns) ↔ Spans source lo hi [n] ∧ Spans source n.stop hi ns := by
  constructor
  · intro spans
    obtain ⟨first, others⟩ := Node.placedIn_cons.1 spans.placed
    have bounded := spans.bounded
    simp only [Node.allOf, Bool.and_eq_true] at bounded
    exact ⟨⟨Node.placedIn_singleton first, by simp [Node.allOf, bounded.1]⟩, others, bounded.2⟩
  · rintro ⟨first, others⟩
    have bounded := first.bounded
    simp only [Node.allOf, Bool.and_true] at bounded
    refine ⟨Node.placedIn_cons.2 ⟨(Node.placedIn_cons.1 first.placed).1, others.placed⟩, ?_⟩
    simp [Node.allOf, bounded, others.bounded]

theorem withKind (spans : Spans source lo hi [n]) : Spans source lo hi [n.withKind kind] := by
  cases n
  exact singleton_iff.2 (singleton_iff.1 spans)

theorem first_le (spans : Spans source lo hi (n :: ns)) :
    lo ≤ n.start ∧ n.start ≤ hi ∧ Text.isBoundary source n.start = true := by
  cases n
  obtain ⟨low, width, high, starts, -⟩ := singleton_iff.1 (cons_iff.1 spans).1
  exact ⟨low, Nat.le_trans width high, starts⟩

theorem from_first (spans : Spans source lo hi (n :: ns)) : Spans source n.start hi (n :: ns) := by
  cases n
  obtain ⟨first, others⟩ := cons_iff.1 spans
  obtain ⟨-, rest⟩ := singleton_iff.1 first
  exact cons_iff.2 ⟨singleton_iff.2 ⟨Nat.le_refl _, rest⟩, others⟩

theorem to_last (spans : Spans source lo hi (ns ++ [n])) :
    Spans source lo n.stop (ns ++ [n]) ∧ lo ≤ n.stop ∧ n.stop ≤ hi ∧ Text.isBoundary source n.stop = true := by
  induction ns generalizing lo with
  | nil =>
    cases n
    obtain ⟨low, width, high, starts, stops, inner⟩ := singleton_iff.1 spans
    refine ⟨singleton_iff.2 ⟨low, width, Nat.le_refl _, starts, stops, inner⟩, Nat.le_trans low width, high, stops⟩
  | cons first rest ih =>
    obtain ⟨this, others⟩ := cons_iff.1 spans
    obtain ⟨others, later, high, stops⟩ := ih others
    cases first
    obtain ⟨low, width, -, inner⟩ := singleton_iff.1 this
    exact ⟨cons_iff.2 ⟨singleton_iff.2 ⟨low, width, later, inner⟩, others⟩,
      Nat.le_trans low (Nat.le_trans width later), high, stops⟩

theorem spanning (spans : Spans source lo hi (n :: ns)) (more : ns ≠ []) :
    Spans source lo hi [.spanning kind n (ns.getLast more) (n :: ns)] := by
  obtain ⟨low, -, starts⟩ := first_le spans
  have split : n :: ns = n :: ns.dropLast ++ [ns.getLast more] := by
    rw [List.cons_append, List.dropLast_concat_getLast more]
  have later := from_first spans
  rw [split] at later
  obtain ⟨inner, width, high, stops⟩ := to_last later
  exact singleton_iff.2 ⟨low, width, high, starts, stops, split ▸ inner⟩

mutual

/-- Reading a literal again as a pattern leaves all places as they are. -/
theorem pattern (place : Place) : (n : Node) → ∀ {lo hi p}, Node.pattern? place n = some p →
    Spans source lo hi [n] → Spans source lo hi [p] ∧ p.stop = n.stop
  | .mk kind s e cs, lo, hi, p, read, spans => by
    obtain ⟨low, width, high, starts, stops, inner⟩ := singleton_iff.1 spans
    have again {kind' : Kind} {ps : List Node} (parts : Spans source s e ps) :
        Spans source lo hi [.mk kind' s e ps] ∧ Node.stop (.mk kind' s e ps) = e :=
      ⟨singleton_iff.2 ⟨low, width, high, starts, stops, parts⟩, rfl⟩
    cases kind
    case pair =>
      match cs with
      | [] | [_] | _ :: _ :: _ :: _ => cases read
      | [key, value] =>
        simp only [Node.pattern?, Option.ite_none_right_eq_some, Option.map_eq_some_iff] at read
        obtain ⟨-, q, taken, rfl⟩ := read
        obtain ⟨first, second⟩ := cons_iff.1 inner
        exact again (cons_iff.2 ⟨first, (pattern .binding value taken second).1⟩)
    case object | array | spreadElement =>
      simp only [Node.pattern?, Option.ite_none_left_eq_some, Option.map_eq_some_iff] at read
      obtain ⟨-, ps, taken, rfl⟩ := read
      exact again (patterns _ cs taken inner)
    case assignmentExpression | shorthandProperty | shorthandDefault =>
      simp only [Node.pattern?, Option.ite_none_right_eq_some, Option.some.injEq] at read
      exact read.2 ▸ again inner
    case identifier | undefined | memberExpression | subscriptExpression | objectPattern | arrayPattern =>
      simp only [Node.pattern?, Option.ite_none_left_eq_some, Option.some.injEq] at read
      exact read.2 ▸ again inner
    all_goals cases read

theorem patterns (place : Place) : (ns : List Node) → ∀ {lo hi ps}, Node.patterns? place ns = some ps →
    Spans source lo hi ns → Spans source lo hi ps
  | [], lo, hi, ps, read, _ => by
    cases read
    exact nil
  | n :: rest, lo, hi, ps, read, spans => by
    rw [Node.patterns?] at read
    cases first : Node.pattern? place n with
    | none => simp [first] at read
    | some q =>
      cases others : Node.patterns? place rest with
      | none => simp [first, others] at read
      | some qs =>
        obtain rfl : q :: qs = ps := by simpa [first, others] using read
        obtain ⟨one, more⟩ := cons_iff.1 spans
        obtain ⟨one, same⟩ := pattern place n first one
        exact cons_iff.2 ⟨one, same ▸ patterns place rest others more⟩

end

end Spans

end ClassLinker.Script
