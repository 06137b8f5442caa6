import ClassLinker.Proofs.Answers
import ClassLinker.Proofs.ImportBlock

set_option autoImplicit false

namespace ClassLinker

namespace Script

open Grammar Reader

theorem closesComment_cons (c : Char) {rest : List Char} (closes : closesComment rest = true) :
    closesComment (c :: rest) = true := by
  rw [closesComment.eq_def]
  split
  next => rfl
  next same =>
    cases same
    exact closes
  next same => cases same

theorem closesComment_append {text : List Char} (closes : closesComment text = true) (more : List Char) :
    closesComment (text ++ more) = true := by
  fun_induction closesComment text with
  | case1 => rfl
  | case2 c rest open_ ih => exact closesComment_cons c (ih closes)
  | case3 => cases closes

theorem skipGap_comment {n : Nat} {c : Char} {rest : List Char} (inside : ∀ more, c = '*' → rest ≠ '/' :: more) :
    skipGap .blockComment n (c :: rest) = skipGap .blockComment (n + c.utf8Size) rest := by
  rw [skipGap.eq_def]
  split
  next same => cases same
  next isLine _ => cases isLine
  next same =>
    cases same
    exact absurd rfl (inside _ rfl)
  next same =>
    cases same
    rfl
  all_goals
    next isBlanks _ => cases isBlanks

theorem skipGap_blank {n : Nat} {c : Char} {rest : List Char} (blank : isBlank c = true) :
    skipGap .blanks n (c :: rest) = skipGap .blanks (n + c.utf8Size) rest := by
  have notSlash : c ≠ '/' := by
    rintro rfl
    exact absurd blank (by decide)
  rw [skipGap.eq_def]
  split
  all_goals simp_all

theorem skipGap_kept {gap : Gap} {n m : Nat} {text rest : List Char} {c : Char}
    (skipped : skipGap gap n text = (c :: rest, m)) (token : c ≠ '/') :
    ∃ before, text = before ++ c :: rest ∧ (gap = .blockComment → closesComment before = true) ∧
      ∀ others, skipGap gap n (before ++ c :: others) = (c :: others, m) := by
  fun_induction skipGap gap n text with
  | case1 => cases skipped
  | case2 n x text ends ih =>
    obtain ⟨before, rfl, -, kept⟩ := ih skipped
    refine ⟨x :: before, rfl, by simp, fun others => ?_⟩
    rw [List.cons_append, skipGap.eq_def]
    simp only [if_pos ends, kept]
  | case3 n x text inside ih =>
    obtain ⟨before, rfl, -, kept⟩ := ih skipped
    refine ⟨x :: before, rfl, by simp, fun others => ?_⟩
    rw [List.cons_append, skipGap.eq_def]
    simp [inside, kept]
  | case4 n text ih =>
    obtain ⟨before, rfl, -, kept⟩ := ih skipped
    refine ⟨'*' :: '/' :: before, rfl, fun _ => rfl, fun others => ?_⟩
    rw [List.cons_append, List.cons_append, skipGap.eq_def]
    simp only [kept]
  | case5 n x text inside ih =>
    obtain ⟨before, rfl, closes, kept⟩ := ih skipped
    refine ⟨x :: before, rfl, fun _ => closesComment_cons x (closes rfl), fun others => ?_⟩
    rw [List.cons_append, skipGap_comment, kept]
    -- the comment is closed further on, so its end is not cut off
    rintro more rfl starts
    cases before with
    | nil => cases closes rfl
    | cons y before =>
      cases starts
      exact inside (before ++ c :: rest) rfl rfl
  | case6 n text ih =>
    obtain ⟨before, rfl, -, kept⟩ := ih skipped
    refine ⟨'/' :: '/' :: before, rfl, by simp, fun others => ?_⟩
    rw [List.cons_append, List.cons_append, skipGap.eq_def]
    simp only [kept]
  | case7 n text closes ih =>
    obtain ⟨before, rfl, closed, kept⟩ := ih skipped
    refine ⟨'/' :: '*' :: before, rfl, by simp, fun others => ?_⟩
    rw [List.cons_append, List.cons_append, skipGap.eq_def]
    simp only [closesComment_append (closed rfl), kept]
    rfl
  | case8 n text unclosed =>
    -- what follows could close this comment, but a token does not start like one
    cases skipped
    exact absurd rfl token
  | case9 n x text noLine noBlock blank ih =>
    obtain ⟨before, rfl, -, kept⟩ := ih skipped
    refine ⟨x :: before, rfl, by simp, fun others => ?_⟩
    rw [List.cons_append, skipGap_blank blank, kept]
  | case10 n x text noLine noBlock notBlank =>
    cases skipped
    refine ⟨[], rfl, by simp, fun others => ?_⟩
    rw [List.nil_append, skipGap.eq_def]
    split <;> simp_all

theorem size_skipGap (gap : Gap) (n : Nat) (text : List Char) :
    (skipGap gap n text).2 + Text.byteSize (skipGap gap n text).1 = n + Text.byteSize text := by
  have slash : Char.utf8Size '/' = 1 := rfl
  have star : Char.utf8Size '*' = 1 := rfl
  fun_induction skipGap gap n text <;> simp_all [Text.byteSize] <;> omega

theorem opensWithHashBang_kept {source : List Char} (opens : opensWithHashBang source = true) :
    ∃ before more, source = before ++ "#!".toList ++ more ∧
      (Cursor.ofSource source).skip.offset = Text.byteSize before ∧
      ∀ others, opensWithHashBang (before ++ "#!".toList ++ others) = true := by
  obtain ⟨more, text⟩ := List.isPrefixOf_iff_prefix.1 opens
  have skipped : skipGap .blanks 0 source = ('#' :: '!' :: more, (Cursor.ofSource source).skip.offset) := by
    rw [show '#' :: '!' :: more = (Cursor.ofSource source).skip.rest from text]
    simp only [Cursor.skip, Cursor.ofSource, Cursor.moveTo, Nat.zero_add]
  obtain ⟨before, whole, -, kept⟩ := skipGap_kept skipped (by decide)
  refine ⟨before, more, by simp [whole], ?_, fun others => ?_⟩
  next =>
    have sizes := size_skipGap .blanks 0 source
    have total := congrArg Text.byteSize whole
    rw [Text.byteSize_append] at total
    rw [skipped] at sizes
    simp only at sizes
    omega
  next =>
    have again := kept ('!' :: others)
    simp only [opensWithHashBang, Cursor.skip, Cursor.ofSource, Cursor.moveTo, List.append_assoc]
    rw [show before ++ ("#!".toList ++ others) = before ++ '#' :: '!' :: others from rfl, again]
    rfl

theorem hashBang_run {c : Cursor} {more : List Char} {start : Nat}
    (next : c.skip.toPoint = ⟨'#' :: '!' :: more, start⟩) :
    ∃ stop after, hashBang c = some ([.mk .hashBang start stop []], after) ∧ start + 2 ≤ stop := by
  let past : Point := Point.advanceWhile ⟨'#' :: '!' :: more, start⟩ (· ≠ '\n')
  have line : lexeme .hashBang (fun p => some (p.advanceWhile (· ≠ '\n'))) c =
      some (.mk .hashBang start past.offset [], c.moveTo past) := lexeme_run next rfl
  refine ⟨past.offset, c.moveTo past, ?_, ?_⟩
  next =>
    unfold hashBang
    rw [bind_run (sees_run "#!" next)]
    exact bind_run line
  next =>
    have hash : Char.utf8Size '#' = 1 := rfl
    have bang : Char.utf8Size '!' = 1 := rfl
    simp only [past, Point.advanceWhile, Point.advance]
    simp [Text.byteSize, hash, bang]
    omega

theorem children_of_hashBang {source : List Char} {root : Node} (opens : opensWithHashBang source = true)
    (read : readProgram source = some root) :
    ∃ stop statements, root.children = .mk .hashBang (Cursor.ofSource source).skip.offset stop [] :: statements ∧
      (Cursor.ofSource source).skip.offset + 2 ≤ stop := by
  obtain ⟨more, text⟩ := List.isPrefixOf_iff_prefix.1 opens
  have next : (Cursor.ofSource source).skip.toPoint = ⟨'#' :: '!' :: more, (Cursor.ofSource source).skip.offset⟩ := by
    rw [show '#' :: '!' :: more = (Cursor.ofSource source).skip.rest from text]
  obtain ⟨stop, after, line, long⟩ := hashBang_run next
  unfold readProgram program at read
  rw [bind_run line, bind_run (show bound after = some (after.limit, after) from rfl)] at read
  cases run : many (nextStatement (rulesTo (nesting source))) after.limit after with
  | none =>
    rw [bind_fails run] at read
    cases read
  | some r =>
    rw [bind_run run] at read
    cases read
    exact ⟨stop, r.1, rfl, long⟩

theorem Tree.isOk_parse (file source : String) : (parse file source).isOk = (ofSource? source.toList).isSome := by
  unfold parse
  cases ofSource? source.toList <;> rfl

theorem Tree.parse_eq_ok {file source : String} {t : Tree} (parsed : parse file source = .ok t) :
    ofSource? source.toList = some t := by
  unfold parse at parsed
  cases read : ofSource? source.toList with
  | none =>
    rw [read] at parsed
    cases parsed
  | some other =>
    rw [read] at parsed
    cases parsed
    rfl

end Script

namespace ParentCall

open Script (Node Tree opensWithHashBang)
open Text (isBoundary takeBytes)

variable {t : Tree} {systems : List String} {file : String}

theorem edits_of_replaced_zero {c : ClassDefinition} (none : (classEdits t file c).replaced = 0) :
    (classEdits t file c).edits = [] := by
  unfold classEdits at none ⊢
  cases has : Parent.ofDescriptor? c.descriptor with
  | none => rfl
  | some parent =>
    simp only [has, List.length_eq_zero_iff] at none
    simp [none, outermostEdits]

theorem code_of_replaced_zero {classes : List ClassDefinition} (none : (substitute t file classes).replaced = 0) :
    (substitute t file classes).code = String.ofList t.source := by
  have edits : allEdits t file classes = [] := by
    rw [List.eq_nil_iff_forall_not_mem]
    intro e among
    obtain ⟨c, member, inClass⟩ := mem_allEdits.1 among
    refine List.not_mem_nil (edits_of_replaced_zero ?_ ▸ inClass)
    have sum : ((classes.map (classEdits t file)).map (·.replaced)).sum = 0 := by
      rw [List.sum_eq_foldl, List.foldl_map]
      exact none
    exact List.sum_eq_zero_iff_forall_eq_nat.1 sum _ (List.mem_map_of_mem (List.mem_map_of_mem member))
  rw [code_substitute, edits]
  rfl

theorem code_after_first (systems : List String) (file : String) {first : Node} {statements : List Node}
    (children : t.root.children = first :: statements) (noClass : classOf? t systems file first = none) :
    ∃ more, (substitute t file (ClassDefinition.all t systems file)).code.toList =
      takeBytes first.stop t.source ++ more := by
  have edits : allEdits t file (ClassDefinition.all t systems file) =
      allEdits t file (statements.filterMap (classOf? t systems file)) := by
    rw [all_eq_filterMap, children, List.filterMap_cons_none noClass]
  have placed : ∀ e ∈ allEdits t file (ClassDefinition.all t systems file), e.Placed t.source := by
    intro e member
    obtain ⟨c, defined, inClass⟩ := mem_allEdits.1 member
    obtain ⟨parent, -, s, found, rfl⟩ := mem_classEdits inClass
    exact placed_editAt parent defined (mem_of_mem_sortedSites found)
  -- edits are in classes, classes in later statements, and those start where the first one stops or after that
  have bounded := (Node.Part.whole.child (children ▸ List.mem_cons_self) : t.root.Part first).all t.bounded
  have inside := t.placed
  revert children bounded inside
  cases t.root with
  | mk k s e all =>
    rintro rfl bounded inside
    cases first with
    | mk k' s' e' cs =>
      simp only [Node.all, Bool.and_eq_true] at bounded
      simp only [Node.placed, Node.placedIn, Bool.and_eq_true, decide_eq_true_eq] at inside
      have order : InOrder e' (allEdits t file (ClassDefinition.all t systems file)) e := by
        rw [edits]
        exact allEdits_inOrder t systems file statements inside.2.2 inside.2.1.1.2
      rw [code_substitute, applyEdits_eq_woven order bounded.1.2 placed]
      exact ⟨_, String.toList_ofList⟩

theorem opensWithHashBang_substitute {source : List Char} (read : Tree.ofSource? source = some t)
    (opens : opensWithHashBang source = true) :
    opensWithHashBang (substitute t file (ClassDefinition.all t systems file)).code.toList = true := by
  obtain ⟨rfl, program⟩ := Tree.ofSource?_eq read
  obtain ⟨before, more, whole, offset, kept⟩ := Script.opensWithHashBang_kept opens
  obtain ⟨stop, statements, children, long⟩ := Script.children_of_hashBang opens program
  obtain ⟨tail, code⟩ := code_after_first systems file children rfl
  -- the line is kept whole, but its first two characters are enough
  have two : Text.byteSize "#!".toList = 2 := rfl
  have boundary : isBoundary t.source (Text.byteSize (before ++ "#!".toList)) = true := by
    rw [whole]
    exact Script.isBoundary_cut _ more
  have opening : takeBytes (Text.byteSize (before ++ "#!".toList)) t.source = before ++ "#!".toList := by
    rw [whole, Text.takeBytes_byteSize]
  rw [code, ← Text.takeBytes_append_slice (m := Text.byteSize (before ++ "#!".toList)) _ boundary, opening,
    List.append_assoc]
  next => exact kept _
  next =>
    rw [Text.byteSize_append, two]
    simp only [Node.stop]
    omega

end ParentCall

theorem ImportEntry.toList_block (ext : String) (first : ImportEntry) (rest : List ImportEntry) :
    (block ext (first :: rest)).toList =
      Script.importBlock ((first :: rest).map fun e => (e.specifier ext).toList) := by
  have lines (entries : List ImportEntry) (below : List Char) :
      (String.join (entries.map fun e => "import '" ++ e.specifier ext ++ "';\n")).toList ++ below =
        Script.importLines (entries.map fun e => (e.specifier ext).toList) below := by
    induction entries with
    | nil => simp [Script.importLines]
    | cons e entries ih =>
      rw [List.map_cons, List.map_cons, String.join_cons, String.toList_append, List.append_assoc, ih]
      simp [Script.importLines]
  unfold block Script.importBlock
  rw [← lines]
  simp

namespace Session

open Script (opensWithHashBang)

theorem isOk_block {ext path : String} {entries : List ImportEntry} {body : String}
    (plain : ∀ specifier ∈ entries.map (·.specifier ext), Script.Plain specifier.toList) :
    (Script.Tree.parse path (ImportEntry.block ext entries ++ body)).isOk =
      ((Script.Tree.parse path body).isOk && (entries.isEmpty || !opensWithHashBang body.toList)) := by
  cases entries with
  | nil => simp [ImportEntry.block]
  | cons first rest =>
    have specifiers : ∀ s ∈ (first :: rest).map (fun e => (e.specifier ext).toList), Script.Plain s := by
      intro s member
      obtain ⟨e, inside, rfl⟩ := List.mem_map.mp member
      exact plain _ (List.mem_map_of_mem inside)
    have whole : (ImportEntry.block ext (first :: rest) ++ body).toList =
        Script.importBlock ((first :: rest).map fun e => (e.specifier ext).toList) ++ body.toList := by
      rw [String.toList_append, ImportEntry.toList_block]
    rw [Script.Tree.isOk_parse, Script.Tree.isOk_parse]
    exact Script.isSome_ofSource?_below whole specifiers

theorem bodyOf_of_unreplaced {config : Config} {path text : String} {tree : Script.Tree}
    (parsed : Script.Tree.parse path text = .ok tree)
    (kept : config.replaceCallParent = false ∨
      (ParentCall.substitute tree path (ClassDefinition.all tree config.classSystems path)).replaced = 0) :
    bodyOf config path text tree = text := by
  unfold bodyOf
  rcases kept with off | none
  next => simp [off]
  next =>
    have source := (Script.Tree.ofSource?_eq (Script.Tree.parse_eq_ok parsed)).1
    split
    next => rw [ParentCall.code_of_replaced_zero none, source, String.ofList_toList]
    next => rfl

theorem opensWithHashBang_bodyOf {config : Config} {path text : String} {tree : Script.Tree}
    (parsed : Script.Tree.parse path text = .ok tree) (opens : opensWithHashBang text.toList = true) :
    opensWithHashBang (bodyOf config path text tree).toList = true := by
  unfold bodyOf
  split
  next => exact ParentCall.opensWithHashBang_substitute (Script.Tree.parse_eq_ok parsed) opens
  next => exact opens

/-- Whatever was called before, the code of an outcome is accepted if and only if its body is, and it has no imports or
the body does not open with a line that names an interpreter. The body is the accepted source itself if no call is
replaced in it. Such a line in the source is still there in the body, so with imports above it the code is never
accepted. The specifiers of the imports have to be such that they can stand between quotes. -/
theorem code_accepted_iff {root : String} {config : Config} {start : Session}
    (created : create root config = .ok start) (calls : List Call) (w : Workspace) (id source : String)
    {o : TransformOutput} (answer : ((start.run calls).transform w id source).1 = .ok (some o))
    (plain : ∀ specifier ∈ o.imports, Script.Plain specifier.toList) :
    let s := start.run calls
    let path := s.pathOf (s.fileOf id)
    ∃ text tree,
      (text = source ∨
        ∃ call ∈ calls, start.Uses call text ∧ Digest.fingerprint text = Digest.fingerprint source) ∧
      Script.Tree.parse path text = .ok tree ∧
      ((Script.Tree.parse path o.code).isOk ↔
        (Script.Tree.parse path (bodyOf s.config path text tree)).isOk ∧
          (o.imports = [] ∨ opensWithHashBang (bodyOf s.config path text tree).toList = false)) ∧
      (s.config.replaceCallParent = false ∨
          (ParentCall.substitute tree path (ClassDefinition.all tree s.config.classSystems path)).replaced = 0 →
        ((Script.Tree.parse path o.code).isOk ↔ o.imports = [] ∨ opensWithHashBang text.toList = false)) ∧
      (opensWithHashBang text.toList = true → (Script.Tree.parse path o.code).isOk → o.imports = []) := by
  intro s path
  obtain ⟨text, origin, fits⟩ := fits_answer (create_eq created).2.2.1 calls w id source
  rw [answer] at fits
  obtain ⟨tree, entries, parsed, code, imports, -⟩ := fits
  have accepted : (Script.Tree.parse path o.code).isOk ↔
      (Script.Tree.parse path (bodyOf s.config path text tree)).isOk ∧
        (o.imports = [] ∨ opensWithHashBang (bodyOf s.config path text tree).toList = false) := by
    rw [code, isOk_block (imports ▸ plain), imports, Bool.and_eq_true, Bool.or_eq_true, List.isEmpty_iff,
      Bool.not_eq_true', List.map_eq_nil_iff]
  refine ⟨text, tree, origin, parsed, accepted, ?_, ?_⟩
  next =>
    intro kept
    rw [accepted, bodyOf_of_unreplaced parsed kept, parsed]
    exact and_iff_right rfl
  next =>
    intro opens ok
    rcases (accepted.mp ok).2 with none | closed
    next => exact none
    next =>
      rw [opensWithHashBang_bodyOf parsed opens] at closed
      cases closed

set_option maxRecDepth 100000 in
theorem code_accepted_of_subclass :
    let source := "Ext.define('N.A',\x7bextend:'N.X',m()\x7bthis.callParent()\x7d\x7d)"
    let w : Workspace := ⟨[("src", .directory [("X.js", .file (.text "Ext.define('N.X',\x7b\x7d)"))])]⟩
    let calls : List Call := [.fileChanged w "/src/Z.js" .deleted]
    ∃ start o, create "/" (Config.default.withMapping "N" (.path "/src")) = .ok start ∧
      ((start.run calls).transform w "/src/A.js" source).1 = .ok (some o) ∧ o.imports = ["/src/X.js"] ∧
      (∀ specifier ∈ o.imports, Script.Plain specifier.toList) ∧ (Script.Tree.parse "/src/A" o.code).isOk := by
  -- A class that extends another one and calls its parent's method, with an import for the parent.
  intro source w calls
  let o : TransformOutput := {
    code := "/*** <extjs-import> ***/\nimport '/src/X.js';\n/*** </extjs-import> ***/\n\n" ++
      "Ext.define('N.A',\x7bextend:'N.X',m()\x7b(N.X.prototype || N.X)['m'].apply(this)\x7d\x7d)"
    imports := ["/src/X.js"], diagnostics := [], changed := true }
  have runs : ∃ start, create "/" (Config.default.withMapping "N" (.path "/src")) = .ok start ∧
      start.config = Config.default.withMapping "N" (.path "/src") ∧
      start.pathOf (start.fileOf "/src/A.js") = "/src/A" ∧
      ((start.run calls).transform w "/src/A.js" source).1 = .ok (some o) :=
    ⟨_, rfl, rfl, by decide +kernel, by decide +kernel⟩
  obtain ⟨start, created, config, path, answer⟩ := runs
  have settings := run_sameSettings start calls
  rw [← settings.fileOf, ← settings.pathOf] at path
  rw [← settings.config] at config
  have plain : ∀ specifier ∈ o.imports, Script.Plain specifier.toList := by
    simp only [o, List.mem_singleton, forall_eq]
    decide +kernel
  obtain ⟨text, tree, origin, parsed, accepted, -⟩ := code_accepted_iff created calls w "/src/A.js" source answer plain
  obtain rfl : text = source := by
    rcases origin with same | ⟨call, member, uses, -⟩
    next => exact same
    next =>
      obtain rfl := List.mem_singleton.mp member
      cases uses
  rw [path] at parsed accepted
  rw [config] at accepted
  refine ⟨start, o, created, answer, rfl, plain, accepted.mpr ?_⟩
  have holds : ((Script.Tree.parse "/src/A" source).toOption.all fun tree =>
      let body := bodyOf (Config.default.withMapping "N" (.path "/src")) "/src/A" source tree
      (Script.Tree.parse "/src/A" body).isOk && !opensWithHashBang body.toList) = true := by
    decide +kernel
  rw [parsed] at holds
  simp only [Except.toOption, Option.all_some, Bool.and_eq_true, Bool.not_eq_true'] at holds
  exact ⟨holds.1, .inr holds.2⟩

def spoils (config : Config) (w : Workspace) (id source : String) : Bool :=
  match create "/" config with
  | .error _ => false
  | .ok start =>
    let s := start.run [.discover w]
    let path := s.pathOf (s.fileOf id)
    (Script.Tree.parse path source).isOk && match (s.transform w id source).1 with
      | .ok (some o) => !(Script.Tree.parse path o.code).isOk
      | _ => false

set_option maxRecDepth 100000 in
/-- Imports above a line that names an interpreter, a specifier with a quote in it, and a call in a method with a quote
in its name. -/
theorem accepted_sources_with_refused_code :
    let config (directory : String) := Config.default.withMapping "N" (.path ("/" ++ directory))
    let w (directory : String) : Workspace :=
      ⟨[(directory, .directory [("X.js", .file (.text "Ext.define('N.X',\x7b\x7d)"))])]⟩
    spoils (config "src") (w "src") "/src/A.js" "#!node\nExt.define('N.A',\x7buses:'N.X'\x7d)" = true ∧
      spoils (config "it's") (w "it's") "/it's/A.js" "Ext.define('N.A',\x7buses:'N.X'\x7d)" = true ∧
      spoils (config "src") (w "src") "/src/A.js"
        "Ext.define('N.A',\x7bextend:'N.X',\"it's\"()\x7bthis.callParent()\x7d\x7d)" = true := by
  decide +kernel

end Session

end ClassLinker
