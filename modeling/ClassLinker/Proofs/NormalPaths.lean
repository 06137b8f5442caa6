import Mathlib.Data.List.Basic
import Mathlib.Data.List.Induction
import Mathlib.Data.List.TakeWhile
import Mathlib.Tactic.MkIffOfInductiveProp
import ClassLinker.WebPath

set_option autoImplicit false

namespace ClassLinker

namespace Text

theorem splitOn_of_not_mem {sep : Char} {part : List Char} (absent : sep ∉ part) : splitOn sep part = [part] := by
  induction part with
  | nil => rfl
  | cons c rest ih =>
    rw [List.mem_cons, not_or] at absent
    simp [splitOn, Ne.symm absent.1, ih absent.2]

theorem splitOn_append (sep : Char) (front rest : List Char) :
    splitOn sep (front ++ sep :: rest) = splitOn sep front ++ splitOn sep rest := by
  induction front with
  | nil => simp [splitOn]
  | cons c front ih =>
    by_cases same : c = sep
    next => simp [splitOn, same, ih]
    next =>
      cases parts : splitOn sep front with
      | nil => exact absurd parts (splitOn_ne_nil sep front)
      | cons part more => simp [splitOn, same, ih, parts]

theorem mem_joinWith {sep c : Char} {part : List Char} {parts : List (List Char)} (member : part ∈ parts)
    (inside : c ∈ part) : c ∈ joinWith sep parts := by
  induction parts with
  | nil => cases member
  | cons first more ih =>
    cases more with
    | nil =>
      rw [List.mem_singleton] at member
      exact member ▸ inside
    | cons second more =>
      have unfolded : joinWith sep (first :: second :: more) = first ++ sep :: joinWith sep (second :: more) := rfl
      rw [unfolded, List.mem_append, List.mem_cons]
      rcases List.mem_cons.mp member with rfl | member
      next => exact .inl inside
      next => exact .inr (.inr (ih member))

theorem dropStart?_eq_some {pre cs rest : List Char} : dropStart? pre cs = some rest ↔ cs = pre ++ rest := by
  rw [dropStart?, List.isPrefixOf?_eq_some_iff_append_eq, eq_comm]

theorem dropEnd?_eq_some {post cs front : List Char} : dropEnd? post cs = some front ↔ cs = front ++ post := by
  simp only [dropEnd?, Option.map_eq_some_iff, List.isPrefixOf?_eq_some_iff_append_eq]
  constructor
  next =>
    rintro ⟨rest, split, rfl⟩
    rw [← List.reverse_inj, ← split]
    simp
  next =>
    rintro rfl
    exact ⟨front.reverse, by simp, by simp⟩

end Text

namespace WebPath

@[mk_iff] structure IsName (name : List Char) : Prop where
  filled : name ≠ []
  here : name ≠ ['.']
  above : name ≠ ['.', '.']
  slash : '/' ∉ name
  backslash : '\\' ∉ name

instance : DecidablePred IsName := fun name => decidable_of_iff' _ (isName_iff name)

theorem not_mem_slashed (cs : List Char) : '\\' ∉ slashed cs := by
  simp only [slashed, List.mem_map, not_exists, not_and]
  intro c _
  split
  next => decide
  next other => exact other

theorem slashed_eq_self {cs : List Char} (clean : '\\' ∉ cs) : slashed cs = cs := by
  unfold slashed
  conv_rhs => rw [← List.map_id cs]
  apply List.map_congr_left
  intro c member
  have other : c ≠ '\\' := fun same => clean (same ▸ member)
  exact if_neg other

theorem slashed_append (front back : List Char) : slashed (front ++ back) = slashed front ++ slashed back :=
  List.map_append

theorem slash_of_mem_slashed {slashes : List Char} (only : ∀ c ∈ slashes, c = '/' ∨ c = '\\') :
    ∀ c ∈ slashed slashes, c = '/' := by
  intro c member
  obtain ⟨c', inside, rfl⟩ := List.mem_map.mp member
  rcases only c' inside with rfl | rfl <;> rfl

theorem isName_of_mem_foldSegments {kept parts : List (List Char)} (names : ∀ name ∈ kept, IsName name)
    (clean : ∀ part ∈ parts, '/' ∉ part ∧ '\\' ∉ part) : ∀ name ∈ foldSegments kept parts, IsName name := by
  induction parts generalizing kept with
  | nil => simpa [foldSegments] using names
  | cons part parts ih =>
    have rest : ∀ part ∈ parts, '/' ∉ part ∧ '\\' ∉ part := fun other member =>
      clean other (List.mem_cons_of_mem _ member)
    unfold foldSegments
    split
    next => exact ih names rest
    next plain =>
      simp only [Bool.or_eq_true, decide_eq_true_eq, not_or] at plain
      split
      next => exact ih (fun name member => names name (List.mem_of_mem_tail member)) rest
      next inner =>
        apply ih _ rest
        intro name member
        rcases List.mem_cons.mp member with rfl | member
        next =>
          obtain ⟨slash, backslash⟩ := clean name List.mem_cons_self
          exact ⟨plain.1, plain.2, inner, slash, backslash⟩
        next => exact names name member

theorem isName_of_mem_segments {path name : List Char} (member : name ∈ segments path) : IsName name := by
  apply isName_of_mem_foldSegments _ _ name member
  next => simp
  next =>
    intro part inside
    refine ⟨Text.not_mem_of_mem_splitOn inside, fun within => not_mem_slashed path ?_⟩
    rw [← Text.joinWith_splitOn '/' (slashed path)]
    exact Text.mem_joinWith inside within

theorem foldSegments_of_isName {kept names : List (List Char)} (proper : ∀ name ∈ names, IsName name) :
    foldSegments kept names = kept.reverse ++ names := by
  induction names generalizing kept with
  | nil => simp [foldSegments]
  | cons name names ih =>
    have first := proper name List.mem_cons_self
    rw [foldSegments, if_neg (by simp [first.filled, first.here]), if_neg first.above,
      ih fun other member => proper other (List.mem_cons_of_mem _ member)]
    simp

def trail (names : List (List Char)) : List Char := names.flatMap ('/' :: ·)

@[simp] theorem trail_nil : trail [] = [] := rfl

@[simp] theorem trail_cons (name : List Char) (names : List (List Char)) :
    trail (name :: names) = '/' :: name ++ trail names := rfl

@[simp] theorem trail_append (names more : List (List Char)) : trail (names ++ more) = trail names ++ trail more :=
  List.flatMap_append

theorem ofSegments_eq_trail {names : List (List Char)} (filled : names ≠ []) : ofSegments names = trail names := by
  induction names with
  | nil => exact absurd rfl filled
  | cons name names ih =>
    cases names with
    | nil => simp [ofSegments, Text.joinWith]
    | cons next more =>
      have rest := ih (List.cons_ne_nil next more)
      rw [trail_cons, ← rest]
      rfl

theorem splitOn_trail {names : List (List Char)} (clean : ∀ name ∈ names, '/' ∉ name) :
    Text.splitOn '/' (trail names) = [] :: names := by
  induction names using List.reverseRecOn with
  | nil => rfl
  | append_singleton names name ih =>
    have last : '/' ∉ name := clean name (by simp)
    have split : trail (names ++ [name]) = trail names ++ '/' :: name := by simp
    rw [split, Text.splitOn_append, ih fun other member => clean other (List.mem_append_left _ member),
      Text.splitOn_of_not_mem last]
    rfl

theorem trail_inj {names names' : List (List Char)} (clean : ∀ name ∈ names, '/' ∉ name)
    (clean' : ∀ name ∈ names', '/' ∉ name) (same : trail names = trail names') : names = names' := by
  have parts := congrArg (Text.splitOn '/') same
  rw [splitOn_trail clean, splitOn_trail clean'] at parts
  exact (List.cons.inj parts).2

theorem trail_below_iff {names outer : List (List Char)} (clean : ∀ name ∈ names, '/' ∉ name)
    (clean' : ∀ name ∈ outer, '/' ∉ name) :
    (∃ rest, trail names = trail outer ++ '/' :: rest) ↔ ∃ inner, inner ≠ [] ∧ names = outer ++ inner := by
  constructor
  next =>
    rintro ⟨rest, split⟩
    refine ⟨Text.splitOn '/' rest, Text.splitOn_ne_nil '/' rest, ?_⟩
    have parts := congrArg (Text.splitOn '/') split
    rw [splitOn_trail clean, Text.splitOn_append, splitOn_trail clean'] at parts
    exact (List.cons.inj parts).2
  next =>
    rintro ⟨inner, filled, rfl⟩
    obtain ⟨name, more, rfl⟩ := List.exists_cons_of_ne_nil filled
    exact ⟨name ++ trail more, by simp⟩

theorem backslash_not_mem_trail {names : List (List Char)} (proper : ∀ name ∈ names, IsName name) :
    '\\' ∉ trail names := by
  simp only [trail, List.mem_flatMap, List.mem_cons, not_exists, not_and, not_or]
  exact fun name member => ⟨by decide, (proper name member).backslash⟩

theorem segments_slashed (path : List Char) : segments (slashed path) = segments path := by
  rw [segments, slashed_eq_self (not_mem_slashed path), segments]

theorem segments_cons_slash (path : List Char) : segments ('/' :: path) = segments path := by
  simp [segments, slashed, Text.splitOn, foldSegments]

theorem segments_trail {names : List (List Char)} (proper : ∀ name ∈ names, IsName name) :
    segments (trail names) = names := by
  rw [segments, slashed_eq_self (backslash_not_mem_trail proper),
    splitOn_trail fun name member => (proper name member).slash]
  have folded : foldSegments [] names = names := foldSegments_of_isName proper
  simpa [foldSegments] using folded

theorem segments_ofSegments {names : List (List Char)} (proper : ∀ name ∈ names, IsName name) :
    segments (ofSegments names) = names := by
  by_cases none : names = []
  next =>
    rw [none]
    rfl
  next => rw [ofSegments_eq_trail none, segments_trail proper]

theorem normalise_eq_ofSegments (path : String) :
    normalise path [] = String.ofList (ofSegments (segments path.toList)) := rfl

theorem normalise_eq_self_iff {path : String} :
    normalise path [] = path ↔ ∃ names, (∀ name ∈ names, IsName name) ∧ path.toList = ofSegments names := by
  unfold normalise normaliseChars dropExtension
  constructor
  next =>
    intro normal
    refine ⟨segments path.toList, fun name member => isName_of_mem_segments member, ?_⟩
    conv_lhs => rw [← normal, String.toList_ofList]
  next =>
    rintro ⟨names, proper, spelled⟩
    rw [spelled, segments_ofSegments proper, ← spelled, String.ofList_toList]

theorem withoutExtension?_eq_some {ext path front : List Char} :
    withoutExtension? ext path = some front ↔ path = front ++ '.' :: ext := by
  simp only [withoutExtension?, Option.bind_eq_some_iff, Text.dropEnd?_eq_some]
  constructor
  next =>
    rintro ⟨_, rfl, rfl⟩
    simp
  next =>
    rintro rfl
    exact ⟨front ++ ['.'], by simp, rfl⟩

theorem eq_dropExtension_append (scripts : List String) (path : List Char) :
    ∃ suffix, path = dropExtension scripts path ++ suffix ∧
      (suffix = [] ∨ ∃ ext ∈ scripts, suffix = '.' :: ext.toList) := by
  induction scripts with
  | nil => exact ⟨[], by simp [dropExtension], .inl rfl⟩
  | cons ext scripts ih =>
    unfold dropExtension
    cases front : withoutExtension? ext.toList path with
    | some front' =>
      rw [withoutExtension?_eq_some] at front
      exact ⟨'.' :: ext.toList, front, .inr ⟨ext, List.mem_cons_self, rfl⟩⟩
    | none =>
      obtain ⟨suffix, split, kind⟩ := ih
      refine ⟨suffix, split, kind.imp_right ?_⟩
      rintro ⟨other, member, rfl⟩
      exact ⟨other, List.mem_cons_of_mem _ member, rfl⟩

theorem dropExtension_eq_self_iff {scripts : List String} {path : List Char} :
    dropExtension scripts path = path ↔ ∀ ext ∈ scripts, withoutExtension? ext.toList path = none := by
  induction scripts with
  | nil => simp [dropExtension]
  | cons ext scripts ih =>
    unfold dropExtension
    rw [List.forall_mem_cons, ← ih]
    cases front : withoutExtension? ext.toList path with
    | none => simp
    | some front' =>
      rw [withoutExtension?_eq_some] at front
      have shorter : front' ≠ path := by
        intro same
        simpa [← same] using congrArg List.length front
      simp [shorter]

theorem dropExtension_below_iff {scripts : List String} (clean : ∀ ext ∈ scripts, '/' ∉ ext.toList)
    (path directory : List Char) : (∃ rest, dropExtension scripts path = directory ++ '/' :: rest) ↔
      ∃ rest, path = directory ++ '/' :: rest := by
  obtain ⟨suffix, split, kind⟩ := eq_dropExtension_append scripts path
  have plain : '/' ∉ suffix := by
    rcases kind with rfl | ⟨ext, member, rfl⟩
    next => simp
    next => simpa using clean ext member
  constructor
  next =>
    rintro ⟨rest, below⟩
    exact ⟨rest ++ suffix, by rw [split, below]; simp⟩
  next =>
    rintro ⟨rest, below⟩
    rw [split] at below
    -- the suffix has no slash, so that it starts after the one below the directory
    rcases List.append_eq_append_iff.mp below with ⟨more, _, inside⟩ | ⟨more, shorter, inside⟩
    next => exact absurd (by simp [inside]) plain
    next =>
      cases more with
      | nil =>
        rw [List.nil_append] at inside
        exact absurd (inside ▸ List.mem_cons_self) plain
      | cons c more =>
        obtain ⟨rfl, _⟩ := List.cons.inj inside
        exact ⟨more, shorter⟩

theorem withoutQuery_eq_self {id : String} (plain : '?' ∉ id.toList) : withoutQuery id = id := by
  have all : id.toList.takeWhile (· ≠ '?') = id.toList := by
    rw [List.takeWhile_eq_self_iff]
    intro c member
    have other : c ≠ '?' := fun same => plain (same ▸ member)
    simpa using other
  rw [withoutQuery, all, String.ofList_toList]

theorem withoutQuery_append {id : String} (plain : '?' ∉ id.toList) (query : String) :
    withoutQuery (id ++ "?" ++ query) = id := by
  have skipped : ∀ c ∈ id.toList, decide (c ≠ '?') = true := by
    intro c member
    have other : c ≠ '?' := fun same => plain (same ▸ member)
    simpa using other
  have cut : (id ++ "?" ++ query).toList = id.toList ++ '?' :: query.toList := by simp
  rw [withoutQuery, cut, List.takeWhile_append_of_pos skipped, List.takeWhile_cons_of_neg (by simp), List.append_nil,
    String.ofList_toList]

theorem segments_append_of_slashes {slashes : List Char} (only : ∀ c ∈ slashes, c = '/') (path : List Char) :
    segments (slashes ++ path) = segments path := by
  induction slashes with
  | nil => rfl
  | cons c slashes ih =>
    rw [only c List.mem_cons_self, List.cons_append, segments_cons_slash,
      ih fun other member => only other (List.mem_cons_of_mem _ member)]

theorem eq_dropEnd_append (cs : List Char) :
    ∃ slashes, (∀ c ∈ slashes, c = '/') ∧ cs = Text.dropEnd (· = '/') cs ++ slashes := by
  refine ⟨(cs.reverse.takeWhile (· = '/')).reverse, ?_, ?_⟩
  next =>
    intro c member
    simpa using List.mem_takeWhile_imp (List.mem_reverse.mp member)
  next => rw [Text.dropEnd, ← List.reverse_append, List.takeWhile_append_dropWhile, List.reverse_reverse]

theorem dropEnd_append_of_slashes (cs : List Char) {slashes : List Char} (only : ∀ c ∈ slashes, c = '/') :
    Text.dropEnd (· = '/') (cs ++ slashes) = Text.dropEnd (· = '/') cs := by
  have skipped : ∀ c ∈ slashes.reverse, decide (c = '/') = true := fun c member =>
    decide_eq_true (only c (List.mem_reverse.mp member))
  rw [Text.dropEnd, List.reverse_append, List.dropWhile_append_of_pos skipped, Text.dropEnd]

theorem belowRoot_append (root : List Char) {rest : List Char} (start : rest.head? = some '/') :
    belowRoot root (Text.dropEnd (· = '/') (slashed root) ++ rest) = rest := by
  unfold belowRoot
  by_cases none : Text.dropEnd (· = '/') (slashed root) = []
  next => simp [none]
  next =>
    have found := Text.dropStart?_eq_some.mpr (rfl : Text.dropEnd (· = '/') (slashed root) ++ rest = _)
    simp [none, found, start]

theorem backslash_not_mem_ofSegments {names : List (List Char)} (proper : ∀ name ∈ names, IsName name) :
    '\\' ∉ ofSegments names := by
  by_cases none : names = []
  next =>
    rw [none]
    decide
  next =>
    rw [ofSegments_eq_trail none]
    exact backslash_not_mem_trail proper

theorem ofFileId_below_root {base file : String} {slashes more : List Char}
    (only : ∀ c ∈ slashes ++ more, c = '/' ∨ c = '\\') {id : String}
    (spelled : withoutQuery id = base ++ String.ofList more ++ "/" ++ file) (scripts : List String) :
    ofFileId (base ++ String.ofList slashes) id scripts = normalise ("/" ++ file) scripts := by
  obtain ⟨only, only'⟩ := List.forall_mem_append.mp only
  obtain ⟨ends, onlyEnds, split⟩ := eq_dropEnd_append (slashed base.toList)
  have root : Text.dropEnd (· = '/') (slashed (base ++ String.ofList slashes).toList) =
      Text.dropEnd (· = '/') (slashed base.toList) := by
    rw [String.toList_append, String.toList_ofList, slashed_append,
      dropEnd_append_of_slashes _ (slash_of_mem_slashed only)]
  -- slashes at the end of the root are not part of it, and more slashes at the start of a path mean nothing
  have front : ∀ c ∈ ends ++ slashed more, c = '/' := List.forall_mem_append.mpr ⟨onlyEnds, slash_of_mem_slashed only'⟩
  have whole : slashed (withoutQuery id).toList =
      Text.dropEnd (· = '/') (slashed (base ++ String.ofList slashes).toList) ++
        ((ends ++ slashed more) ++ '/' :: slashed file.toList) := by
    rw [root, spelled, List.append_assoc, ← List.append_assoc, ← split]
    simp [slashed]
  have start : ((ends ++ slashed more) ++ '/' :: slashed file.toList).head? = some '/' := by
    cases slashes' : ends ++ slashed more with
    | nil => rfl
    | cons c rest => simp [front c (by simp [slashes'])]
  rw [ofFileId, whole, belowRoot_append _ start, normaliseChars, segments_append_of_slashes front, segments_cons_slash,
    segments_slashed, ← segments_cons_slash]
  simp [normalise, normaliseChars]

theorem ofFileId_root_append {root file : String} (normal : normalise file [] = file)
    (plain : '?' ∉ (root ++ file).toList) : ofFileId root (root ++ file) [] = file := by
  obtain ⟨names, _, spelled⟩ := normalise_eq_self_iff.mp normal
  have slash : file = "/" ++ String.ofList (Text.joinWith '/' names) := by
    rw [← String.toList_inj, spelled]
    simp [ofSegments]
  have whole : withoutQuery (root ++ file) =
      root ++ String.ofList [] ++ "/" ++ String.ofList (Text.joinWith '/' names) := by
    rw [withoutQuery_eq_self plain, String.append_assoc, ← slash, String.ofList_nil, String.append_empty]
  have known := ofFileId_below_root (fun c (none : c ∈ [] ++ []) => by cases none) whole []
  rwa [← slash, normal, String.ofList_nil, String.append_empty] at known

end WebPath

end ClassLinker
