import ClassLinker.Imports.Basic
import ClassLinker.Proofs.Parallel.Statements
import ClassLinker.Proofs.Placement.Statements

set_option autoImplicit false

namespace ClassLinker.Script

open Grammar Reader Located

section

variable {α β : Type} {c c' : Cursor}

theorem bind_run {f : Reader α} {next : α → Reader β} {a : α} (ran : f c = some (a, c')) :
    (f >>= next) c = next a c' := by
  change (f c).bind (fun x => next x.1 x.2) = next a c'
  rw [ran]
  rfl

theorem bind_fails {f : Reader α} {next : α → Reader β} (fails : f c = none) : (f >>= next) c = none := by
  change (f c).bind (fun x => next x.1 x.2) = none
  rw [fails]
  rfl

theorem get_run : (get : Reader Cursor) c = some (c, c) := rfl

theorem ahead_run {f : Reader α} {a : α} (ran : f c = some (a, c')) : ahead f c = some (a, c) := by
  unfold ahead
  rw [bind_run get_run, bind_run ran]
  rfl

end

def Plain (text : List Char) : Prop :=
  ∀ c ∈ text, c ≠ '\'' ∧ c ≠ '\\' ∧ c ≠ '\n' ∧ c ≠ '\r'

-- by the characters of the text: an instance for all characters would try each of them
instance (text : List Char) : Decidable (Plain text) :=
  List.decidableBAll (fun c => c ≠ '\'' ∧ c ≠ '\\' ∧ c ≠ '\n' ∧ c ≠ '\r') text

theorem repeated_plain {text more : List Char} (plain : Plain text) (offset : Nat) :
    Point.repeated (Lexeme.stringPiece? '\'') ⟨text ++ '\'' :: more, offset⟩ =
      ⟨'\'' :: more, offset + Text.byteSize text⟩ := by
  have go (bound : List Char) (offset : Nat) (enough : text.length ≤ bound.length) :
      Point.repeated.go (Lexeme.stringPiece? '\'') bound ⟨text ++ '\'' :: more, offset⟩ =
        ⟨'\'' :: more, offset + Text.byteSize text⟩ := by
    induction text generalizing bound offset with
    | nil => cases bound <;> rfl
    | cons c rest ih =>
      obtain ⟨notQuote, notEscape, notLine, notReturn⟩ := plain c (by simp)
      have inside : Plain rest := fun x mem => plain x (by simp [mem])
      cases bound with
      | nil => simp at enough
      | cons _ bound =>
        have piece : Lexeme.stringPiece? '\'' ⟨c :: rest ++ '\'' :: more, offset⟩ =
            some ⟨rest ++ '\'' :: more, offset + c.utf8Size⟩ := by
          simp [Lexeme.stringPiece?, notQuote, notEscape, notLine, notReturn, Point.advance, Text.byteSize]
        rw [Point.repeated.go, piece]
        simpa [Text.byteSize, Nat.add_assoc] using ih inside bound (offset + c.utf8Size) (by simpa using enough)
  exact go _ _ (by simp)

theorem string?_plain {text more : List Char} (plain : Plain text) (offset : Nat) :
    Lexeme.string? ⟨'\'' :: (text ++ '\'' :: more), offset⟩ = some ⟨more, offset + Text.byteSize text + 2⟩ := by
  have opening : Point.advance ⟨'\'' :: (text ++ '\'' :: more), offset⟩ 1 = ⟨text ++ '\'' :: more, offset + 1⟩ := rfl
  have closing (offset : Nat) : Point.advance ⟨'\'' :: more, offset⟩ 1 = ⟨more, offset + 1⟩ := rfl
  simp [Lexeme.string?, Lexeme.quoted?, opening, repeated_plain plain, closing]
  omega

def importNode (start : Nat) (specifier : List Char) : Node :=
  .mk .importStatement start (start + 7 + Text.byteSize specifier + 3)
    [.mk .string (start + 7) (start + 7 + Text.byteSize specifier + 2) []]

section

variable {c : Cursor} {cs more : List Char} {start : Nat}

theorem here_run (next : c.skip.toPoint = ⟨cs, start⟩) : here c = some (start, c) := by
  change some (c.skip.offset, c) = _
  rw [next]

theorem sees_run (text : String) (next : c.skip.toPoint = ⟨cs, start⟩) :
    sees text c = some (text.toList.isPrefixOf cs, c) := by
  change some (text.toList.isPrefixOf c.skip.rest, c) = _
  rw [next]

theorem seesWord_run (text : String) (next : c.skip.toPoint = ⟨cs, start⟩) :
    seesWord text c = some (decide (Lexeme.wordOf cs = text.toList), c) := by
  change some (decide (Lexeme.wordOf c.skip.rest = text.toList), c) = _
  rw [next]

theorem symbol_run {text : String} (next : c.skip.toPoint = ⟨text.toList ++ more, start⟩) :
    symbol text c = some ((), c.moveTo ⟨more, start + Text.byteSize text.toList⟩) := by
  have fits : text.toList.isPrefixOf c.skip.rest = true := by simp [next]
  have moved : c.skip.advance text.length = ⟨more, start + Text.byteSize text.toList⟩ := by
    rw [next, ← String.length_toList]
    simp [Point.advance]
  change (if text.toList.isPrefixOf c.skip.rest then set (c.skip.pass text.length) else failure : Reader Unit) c = _
  rw [if_pos fits, Cursor.pass, moved]
  rfl

end

theorem lexeme_run {c : Cursor} {kind : Kind} {recognise : Point → Option Point} {p q : Point}
    (next : c.skip.toPoint = p) (taken : recognise p = some q) :
    lexeme kind recognise c = some (.mk kind p.offset q.offset [], c.moveTo q) := by
  subst next
  unfold lexeme
  rw [bind_run get_run]
  simp only [taken]
  rfl

theorem keyword_run {c : Cursor} {text : String} {more : List Char} {start : Nat}
    (next : c.skip.toPoint = ⟨text.toList ++ more, start⟩) (whole : Lexeme.wordOf (text.toList ++ more) = text.toList) :
    keyword text c = some ((), c.moveTo ⟨more, start + Text.byteSize text.toList⟩) := by
  unfold keyword
  rw [bind_run (seesWord_run text next), whole, decide_eq_true rfl]
  exact symbol_run next

theorem semicolon_run (goesOn : Bool) {c : Cursor} {more : List Char} (text : c.rest = ';' :: more)
    (fuel : 0 < c.limit) :
    semicolon goesOn c = some ((), c.moveTo ⟨more, c.offset + 1⟩) := by
  have shown : hiddenSemicolon goesOn c = some (false, c) := by
    obtain ⟨n, limit⟩ : ∃ n, c.limit = n + 1 := ⟨c.limit - 1, by omega⟩
    have ends : endsHere goesOn c.limit c.rest = false := by rw [limit, text]; rfl
    have comment : c.pastComment? = none := by
      simp [Cursor.pastComment?, Point.advanceWhile, text, isBlank, Text.isWhite]
    have hidden : c.hiddenSemicolon? goesOn c.limit = none := by
      rw [limit, Cursor.hiddenSemicolon?, ends, comment]
      rfl
    unfold hiddenSemicolon
    rw [bind_run get_run, hidden]
    rfl
  have next : c.skip.toPoint = ⟨";".toList ++ more, c.offset⟩ := by
    simp only [Cursor.skip, Cursor.moveTo, text]
    rfl
  unfold semicolon
  rw [bind_run shown]
  exact symbol_run next

theorem importStatement_run (rules : Rules) {c : Cursor} {specifier more : List Char} {start : Nat}
    (plain : Plain specifier)
    (text : c.skip.toPoint = ⟨"import".toList ++ ' ' :: '\'' :: (specifier ++ '\'' :: ';' :: more), start⟩)
    (fuel : 0 < c.limit) :
    importStatement rules c =
      some (importNode start specifier, c.moveTo ⟨more, start + 7 + Text.byteSize specifier + 3⟩) := by
  have named : importParts (c.moveTo ⟨' ' :: '\'' :: (specifier ++ '\'' :: ';' :: more), start + 6⟩) =
      some ([.mk .string (start + 7) (start + 7 + Text.byteSize specifier + 2) []],
        c.moveTo ⟨';' :: more, start + 7 + Text.byteSize specifier + 2⟩) := by
    have next : (c.moveTo ⟨' ' :: '\'' :: (specifier ++ '\'' :: ';' :: more), start + 6⟩).skip.toPoint =
        ⟨'\'' :: (specifier ++ '\'' :: ';' :: more), start + 7⟩ := rfl
    unfold importParts
    rw [bind_run (sees_run "'" next), bind_run (sees_run "\"" next)]
    change (source >>= fun name => pure [name]) _ = _
    rw [source, bind_run (lexeme_run next (string?_plain plain (start + 7)))]
    rfl
  have plainly : importAttribute rules (c.moveTo ⟨';' :: more, start + 7 + Text.byteSize specifier + 2⟩) =
      some ([], c.moveTo ⟨';' :: more, start + 7 + Text.byteSize specifier + 2⟩) := rfl
  have ended : semicolon false (c.moveTo ⟨';' :: more, start + 7 + Text.byteSize specifier + 2⟩) =
      some ((), c.moveTo ⟨more, start + 7 + Text.byteSize specifier + 3⟩) := semicolon_run false rfl fuel
  unfold importStatement
  rw [bind_run (here_run text), bind_run (keyword_run text rfl)]
  change (importParts >>= _) (c.moveTo ⟨' ' :: '\'' :: (specifier ++ '\'' :: ';' :: more), start + 6⟩) = _
  rw [bind_run named, bind_run plainly, bind_run ended]
  rfl

theorem keyword?_run {c : Cursor} {text : String} {cs : List Char} {start : Nat} (next : c.skip.toPoint = ⟨cs, start⟩)
    (other : Lexeme.wordOf cs ≠ text.toList) : keyword? text c = some (false, c) := by
  unfold keyword?
  rw [bind_run (seesWord_run text next), decide_eq_false other]
  rfl

theorem declaration?_run (rules : Rules) {c : Cursor} {cs : List Char} {start : Nat}
    (next : c.skip.toPoint = ⟨cs, start⟩)
    (other : Lexeme.wordOf cs ∉ ["var", "const", "let", "async", "function", "class"].map String.toList) :
    declaration? rules c = some (none, c) := by
  have differs {text : String} (listed : text ∈ ["var", "const", "let", "async", "function", "class"]) :
      Lexeme.wordOf cs ≠ text.toList := fun same => other (List.mem_map.2 ⟨text, listed, same.symm⟩)
  have noWord {text : String} (listed : text ∈ ["var", "const", "let", "async", "function", "class"]) :
      seesWord text c = some (false, c) := by
    rw [seesWord_run text next, decide_eq_false (differs listed)]
  have lexical : seesLexicalDeclaration c = some (false, c) := by
    unfold seesLexicalDeclaration
    rw [bind_run (noWord (by decide))]
    rfl
  have function : seesFunctionDeclaration c = some (false, c) := by
    have unnamed : functionNamed c = some (false, c) := by
      unfold functionNamed
      rw [bind_run (keyword?_run next (differs (by decide)))]
      rfl
    apply ahead_run
    rw [bind_run (keyword?_run next (differs (by decide)))]
    exact unnamed
  have class_ : seesClassDeclaration c = some (false, c) := by
    apply ahead_run
    rw [bind_run (keyword?_run next (differs (by decide)))]
    rfl
  unfold declaration?
  rw [bind_run (noWord (by decide)), bind_run (noWord (by decide)), bind_run lexical]
  change (seesFunctionDeclaration >>= _) c = _
  rw [bind_run function]
  change (seesClassDeclaration >>= _) c = _
  rw [bind_run class_]
  rfl

theorem statement_import (rules : Rules) {c : Cursor} {specifier more : List Char} {start : Nat}
    (plain : Plain specifier)
    (text : c.skip.toPoint = ⟨"import".toList ++ ' ' :: '\'' :: (specifier ++ '\'' :: ';' :: more), start⟩)
    (fuel : 0 < c.limit) :
    statement rules c =
      some (importNode start specifier, c.moveTo ⟨more, start + 7 + Text.byteSize specifier + 3⟩) := by
  rw [← importStatement_run rules plain text fuel]
  have rest : c.skip.rest = "import".toList ++ ' ' :: '\'' :: (specifier ++ '\'' :: ';' :: more) := by rw [text]
  have word : peekWord c = some ("import".toList, c) := by
    change some (Lexeme.wordOf c.skip.rest, c) = _
    rw [rest]
    rfl
  have noLabel : seesLabel c = some (false, c) := by
    unfold seesLabel
    rw [bind_run word]
    rfl
  have behindWord : peekAfter "import" c = some ('\'' :: (specifier ++ '\'' :: ';' :: more), c) := by
    change some ((c.skip.pass 6).skip.rest, c) = _
    unfold Cursor.pass
    rw [text]
    rfl
  -- no other statement opens with the word
  unfold statement
  rw [bind_run (show peek c = some (c.skip.rest, c) from rfl), rest]
  change wordStatement rules c = _
  unfold wordStatement
  rw [bind_run word]
  change (declaration? rules >>= _) c = _
  have undeclared : Lexeme.wordOf ("import".toList ++ ' ' :: '\'' :: (specifier ++ '\'' :: ';' :: more)) ∉ _ :=
    show "import".toList ∉ ["var", "const", "let", "async", "function", "class"].map String.toList by decide
  rw [bind_run (declaration?_run rules text undeclared)]
  change (seesLabel >>= _) c = _
  rw [bind_run noLabel]
  change (seesWord "export" >>= _) c = _
  rw [bind_run (seesWord_run "export" text)]
  change (seesWord "import" >>= _) c = _
  rw [bind_run (seesWord_run "import" text)]
  change (peekAfter "import" >>= _) c = _
  rw [bind_run behindWord]
  rfl

theorem operand_hashBang (rules : Rules) {c : Cursor} {more : List Char} {start : Nat}
    (next : c.skip.toPoint = ⟨'#' :: '!' :: more, start⟩) : operand rules c = none := by
  have rest : c.skip.rest = '#' :: '!' :: more := by rw [next]
  have noWord : peekWord c = some ([], c) := by
    change some (Lexeme.wordOf c.skip.rest, c) = _
    rw [rest]
    rfl
  have noSign {text : String} (differs : ∀ more, text.toList.isPrefixOf ('#' :: '!' :: more) = false) :
      symbol? text c = some (false, c) := by
    unfold symbol?
    rw [bind_run (sees_run text next), differs]
    rfl
  have refused : lexeme .privateProperty Lexeme.privateName? c = none := by
    unfold lexeme
    rw [bind_run get_run]
    simp only [next]
    rfl
  have access : accessOperand rules c = none := by
    refine bind_fails ?_
    unfold baseOperand
    rw [bind_run (seesWord_run "new" next)]
    change simpleOperand rules c = none
    unfold simpleOperand
    rw [bind_run (show peek c = some (c.skip.rest, c) from rfl), rest]
    exact bind_fails refused
  unfold operand
  rw [bind_run (here_run next), bind_run noWord]
  change (symbol? "++" >>= _) c = _
  rw [bind_run (noSign fun _ => rfl), bind_run (noSign fun _ => rfl)]
  change (symbol? "!" >>= _) c = _
  rw [bind_run (noSign fun _ => rfl), bind_run (noSign fun _ => rfl), bind_run (noSign fun _ => rfl),
    bind_run (noSign fun _ => rfl)]
  exact bind_fails access

theorem statement_hashBang (n : Nat) {c : Cursor} {more : List Char} {start : Nat}
    (next : c.skip.toPoint = ⟨'#' :: '!' :: more, start⟩) : rulesTo n .statement c = none := by
  have expression (n level : Nat) : rulesTo n (.expression level) c = none := by
    cases n with
    | zero => rfl
    | succ n => exact bind_fails (operand_hashBang _ next)
  have sequence (n : Nat) : rulesTo n .sequence c = none := by
    cases n with
    | zero => rfl
    | succ n => exact bind_fails (expression n 0)
  cases n with
  | zero => rfl
  | succ n =>
    change statement (rulesTo n) c = none
    unfold statement
    rw [bind_run (show peek c = some (c.skip.rest, c) from rfl), next]
    exact bind_fails (sequence n)

section

variable {rules : Rules} {c c' : Cursor} {n : Nat}

theorem nextStatement_run (more : c.skip.rest ≠ []) : nextStatement rules c = (some <$> rules .statement) c := by
  unfold nextStatement
  rw [bind_run (show peek c = some (c.skip.rest, c) from rfl)]
  cases text : c.skip.rest with
  | nil => exact absurd text more
  | cons _ _ => rfl

theorem many_step (more : c.skip.rest ≠ []) :
    many (nextStatement rules) (n + 1) c =
      (do let first ← rules .statement; return first :: (← many (nextStatement rules) n)) c := by
  change ((nextStatement rules c).bind _) = ((rules .statement c).bind _)
  rw [nextStatement_run more]
  change ((rules .statement c).bind _).bind _ = _
  rw [Option.bind_assoc]
  rfl

theorem many_run {first : Node} (more : c.skip.rest ≠ []) (read : rules .statement c = some (first, c')) :
    many (nextStatement rules) (n + 1) c =
      (many (nextStatement rules) n c').map fun r => (first :: r.1, r.2) := by
  rw [many_step more, bind_run read]
  cases run : many (nextStatement rules) n c' with
  | none => exact bind_fails run
  | some r => exact bind_run run

theorem many_ends (done : c.skip.rest = []) : many (nextStatement rules) (n + 1) c = some ([], c) := by
  have none : nextStatement rules c = some (none, c) := by
    unfold nextStatement
    rw [bind_run (show peek c = some (c.skip.rest, c) from rfl), done]
    rfl
  rw [many, bind_run none]
  rfl

theorem many_refused (more : c.skip.rest ≠ []) (refused : rules .statement c = none) :
    many (nextStatement rules) n c = none := by
  cases n with
  | zero => rfl
  | succ n =>
    rw [many_step more]
    exact bind_fails refused

end

def importLines : List (List Char) → List Char → List Char
  | [], below => below
  | specifier :: rest, below =>
    "import".toList ++ ' ' :: '\'' :: (specifier ++ '\'' :: ';' :: '\n' :: importLines rest below)

def importNodes (start : Nat) : List (List Char) → List Node
  | [] => []
  | specifier :: rest => importNode start specifier :: importNodes (start + 7 + Text.byteSize specifier + 4) rest

theorem many_imports {i n : Nat} {c : Cursor} {specifier : List Char} {rest : List (List Char)} {below : List Char}
    {start : Nat} (plain : ∀ s ∈ specifier :: rest, Plain s)
    (text : c.skip.toPoint = ⟨importLines (specifier :: rest) below, start⟩) (fuel : 0 < c.limit) :
    ∃ stop, many (nextStatement (rulesTo (i + 1))) (n + (rest.length + 1)) c =
      (many (nextStatement (rulesTo (i + 1))) n (c.moveTo ⟨'\n' :: below, stop⟩)).map
        fun r => (importNodes start (specifier :: rest) ++ r.1, r.2) := by
  induction rest generalizing c specifier start with
  | nil =>
    have first : rulesTo (i + 1) .statement c = _ :=
      statement_import (rulesTo i) (plain specifier (by simp)) text fuel
    exact ⟨_, many_run (by rw [text]; exact nofun) first⟩
  | cons second rest ih =>
    have first : rulesTo (i + 1) .statement c = _ :=
      statement_import (rulesTo i) (plain specifier (by simp)) text fuel
    have next : (c.moveTo ⟨'\n' :: importLines (second :: rest) below,
        start + 7 + Text.byteSize specifier + 3⟩).skip.toPoint =
        ⟨importLines (second :: rest) below, start + 7 + Text.byteSize specifier + 4⟩ := rfl
    obtain ⟨stop, read⟩ := ih (fun s mem => plain s (List.mem_cons_of_mem _ mem)) next fuel
    refine ⟨stop, ?_⟩
    rw [List.length_cons, ← Nat.add_assoc, many_run (by rw [text]; exact nofun) first, read, Option.map_map]
    rfl

def importBlock (specifiers : List (List Char)) : List Char :=
  "/*** <extjs-import> ***/\n".toList ++ importLines specifiers "/*** </extjs-import> ***/\n\n".toList

theorem importLines_append (specifiers : List (List Char)) (below more : List Char) :
    importLines specifiers below ++ more = importLines specifiers (below ++ more) := by
  induction specifiers with
  | nil => rfl
  | cons specifier rest ih => simp [importLines, ← ih]

theorem length_importLines (specifiers : List (List Char)) (below : List Char) :
    specifiers.length + below.length ≤ (importLines specifiers below).length := by
  induction specifiers with
  | nil => simp [importLines]
  | cons specifier rest ih =>
    simp only [importLines, List.length_append, List.length_cons]
    omega

theorem skipGap_add (gap : Gap) (n k : Nat) (cs : List Char) :
    skipGap gap (n + k) cs = ((skipGap gap n cs).1, (skipGap gap n cs).2 + k) := by
  fun_induction skipGap gap n cs with rw [skipGap.eq_def]
  | case2 n c rest ends ih => simp only [if_pos ends, Nat.add_right_comm n k, ih]
  | case3 n c rest inside ih => simp only [inside, Nat.add_right_comm n k, ih]; rfl
  | case4 n rest ih => simp only [Nat.add_right_comm n k, ih]
  | case5 n c rest inside ih => split <;> simp_all [Nat.add_right_comm]
  | case6 n rest ih => simp only [Nat.add_right_comm n k, ih]
  | case7 n rest closes ih => simp only [if_pos closes, Nat.add_right_comm n k, ih]
  | case8 n rest unclosed => simp only [unclosed]; rfl
  | case9 n c rest noLine noBlock blank ih => split <;> simp_all [Nat.add_right_comm]
  | case10 n c rest noLine noBlock token => split <;> simp_all

theorem program_run (rules : Rules) {c : Cursor} (noLine : "#!".toList.isPrefixOf c.skip.rest = false) :
    program rules c = (many (nextStatement rules) c.limit c).map fun r => (.mk .program 0 r.2.offset r.1, r.2) := by
  have none : hashBang c = some ([], c) := by
    unfold hashBang
    rw [bind_run (show sees "#!" c = some ("#!".toList.isPrefixOf c.skip.rest, c) from rfl), noLine]
    rfl
  unfold program
  rw [bind_run none, bind_run (show bound c = some (c.limit, c) from rfl)]
  cases run : many (nextStatement rules) c.limit c with
  | none => exact bind_fails run
  | some r => exact bind_run run

def opensWithHashBang (source : List Char) : Bool :=
  "#!".toList.isPrefixOf (Cursor.ofSource source).skip.rest

theorem readProgram_run {source : List Char} (noLine : opensWithHashBang source = false) :
    readProgram source =
      (many (nextStatement (rulesTo (nesting source))) (source.length + 1) (Cursor.ofSource source)).map
        fun r => .mk .program 0 r.2.offset r.1 := by
  unfold readProgram
  rw [program_run _ noLine, Option.map_map]
  rfl

theorem meets_below {source body : List Char} (within : body.length ≤ source.length) (stop : Nat) :
    (Cursor.ofSource body).Meets (stop + 28) false
      ((Cursor.ofSource source).moveTo ⟨'\n' :: ("/*** </extjs-import> ***/\n\n".toList ++ body), stop⟩) where
  next := by
    have gap : skipGap .blanks 0 ('\n' :: ("/*** </extjs-import> ***/\n\n".toList ++ body)) =
        skipGap .blanks (0 + 28) body := rfl
    simp only [Cursor.skip, Cursor.moveTo, Cursor.ofSource, gap, skipGap_add, Point.shift, Point.mk.injEq, true_and]
    omega
  same := nofun
  literal := rfl
  left := Nat.lt_succ_self _
  right := Nat.lt_succ_of_le within

theorem statements_below {k n n' i i' : Nat} {c d : Cursor} (meets : c.Meets k false d) (enough : c.rest.length < n)
    (enough' : c.rest.length < n') (deep : 4 * c.rest.length + 3 < i) (deep' : 4 * c.rest.length + 3 < i') :
    Option.Rel (fun r r' => r'.1 = shift k r.1) (many (nextStatement (rulesTo i)) n c)
      (many (nextStatement (rulesTo i')) n' d) := by
  obtain ⟨n, rfl⟩ : ∃ j, n = j + 1 := ⟨n - 1, by omega⟩
  obtain ⟨n', rfl⟩ : ∃ j, n' = j + 1 := ⟨n' - 1, by omega⟩
  by_cases more : c.skip.rest = []
  case pos =>
    rw [many_ends more, many_ends (by rw [meets.rest, more])]
    exact .some rfl
  case neg =>
    rw [many_step more, many_step (by rwa [meets.rest])]
    have rules {left : Nat} (le : left ≤ c.rest.length) :
        Takes k left (rulesTo i .statement) (rulesTo i' .statement) :=
      takes_rulesTo (by simp only [Goal.rank]; omega) (by simp only [Goal.rank]; omega)
    have readers : Parallel k false c.rest.length (Passed k c.rest.length)
        (do let first ← rulesTo i .statement; return first :: (← many (nextStatement (rulesTo i)) n))
        (do let first ← rulesTo i' .statement; return first :: (← many (nextStatement (rulesTo i')) n')) := by
      refine (rules (Nat.le_refl _)).bind fun first left less => ?_
      have statements : Tries k left (many (nextStatement (rulesTo i)) n) (many (nextStatement (rulesTo i')) n') := by
        refine tries_many (fun j le tight => .peek fun cs => ?_) (by omega) (by omega)
        split
        next => exact declined (.inr rfl)
        next => exact (rules (by omega)).offered (Nat.le_refl _)
      exact statements.bind fun rest left' le => .passed rfl (by omega)
    refine rel_mono (readers c d meets rfl) ?_
    rintro r r' ⟨_, -, same, -, -⟩
    exact same

theorem settled_imports (start : Nat) (specifiers : List (List Char)) :
    Node.allOf Node.settled (importNodes start specifiers) = true := by
  induction specifiers generalizing start with
  | nil => rfl
  | cons specifier rest ih =>
    rw [importNodes, Node.allOf, ih]
    rfl

section

variable {specifier : List Char} {rest : List (List Char)} {body : List Char}

theorem importBlock_below (specifiers : List (List Char)) (body : List Char) :
    importBlock specifiers ++ body =
      "/*** <extjs-import> ***/\n".toList ++
        importLines specifiers ("/*** </extjs-import> ***/\n\n".toList ++ body) := by
  unfold importBlock
  rw [List.append_assoc, importLines_append]

theorem readProgram_below {source : List Char} (whole : source = importBlock (specifier :: rest) ++ body)
    (plain : ∀ s ∈ specifier :: rest, Plain s) :
    ∃ stop n i, body.length < n ∧ 4 * body.length + 3 < i ∧
      readProgram source =
        (many (nextStatement (rulesTo i)) n ((Cursor.ofSource source).moveTo
          ⟨'\n' :: ("/*** </extjs-import> ***/\n\n".toList ++ body), stop⟩)).map
          fun r => .mk .program 0 r.2.offset (importNodes 25 (specifier :: rest) ++ r.1) := by
  rw [importBlock_below] at whole
  have text : (Cursor.ofSource source).skip.toPoint =
      ⟨importLines (specifier :: rest) ("/*** </extjs-import> ***/\n\n".toList ++ body), 25⟩ := by
    rw [whole]
    rfl
  have noLine : opensWithHashBang source = false := by
    unfold opensWithHashBang
    rw [text]
    rfl
  have lengths : rest.length + 1 + body.length < source.length := by
    have lines := length_importLines (specifier :: rest) ("/*** </extjs-import> ***/\n\n".toList ++ body)
    have opening : "/*** <extjs-import> ***/\n".toList.length = 25 := rfl
    rw [List.length_append, List.length_cons] at lines
    rw [whole, List.length_append, opening]
    omega
  have count : source.length + 1 = source.length - rest.length + (rest.length + 1) := by omega
  obtain ⟨stop, read⟩ := many_imports (i := 4 * source.length + 7) (n := source.length - rest.length) plain text
    (Nat.succ_pos _)
  refine ⟨stop, source.length - rest.length, 4 * source.length + 8, by omega, by omega, ?_⟩
  rw [readProgram_run noLine, count, nesting, read, Option.map_map]
  rfl

theorem settled_below (k e e' : Nat) (statements : List Node) :
    (Node.mk .program 0 e' (importNodes 25 (specifier :: rest) ++ shift k statements)).all Node.settled =
      (Node.mk .program 0 e statements).all Node.settled := by
  rw [Node.all, Node.all, Node.allOf_append, settled_imports, Node.allOf_shifted, Bool.true_and]
  simp only [Node.settled_shift]
  rfl

theorem isSome_ofSource?_below {source : List Char} (whole : source = importBlock (specifier :: rest) ++ body)
    (plain : ∀ s ∈ specifier :: rest, Plain s) :
    (Tree.ofSource? source).isSome = ((Tree.ofSource? body).isSome && !opensWithHashBang body) := by
  obtain ⟨stop, n, i, enough, deep, read⟩ := readProgram_below whole plain
  rw [isSome_ofSource?, isSome_ofSource?, read]
  have within : body.length ≤ source.length := by rw [whole, List.length_append]; omega
  have meets := meets_below within stop
  generalize (Cursor.ofSource source).moveTo _ = d at meets ⊢
  cases line : opensWithHashBang body with
  | true =>
    obtain ⟨more, text⟩ := List.isPrefixOf_iff_prefix.1 line
    have next : d.skip.toPoint = ⟨'#' :: '!' :: more, (Cursor.ofSource body).skip.offset + (stop + 28)⟩ := by
      rw [meets.next, Point.shift, ← text]
      rfl
    rw [many_refused (by simp [next]) (statement_hashBang i next), Bool.not_true, Bool.and_false]
    rfl
  | false =>
    rw [readProgram_run line, Bool.not_false, Bool.and_true]
    have related := statements_below meets (Nat.lt_succ_self body.length) enough
      (show 4 * body.length + 3 < nesting body by unfold nesting; omega) deep
    generalize many (nextStatement (rulesTo (nesting body))) (body.length + 1) (Cursor.ofSource body) = x at related ⊢
    generalize many (nextStatement (rulesTo i)) n d = y at related ⊢
    cases related with
    | none => rfl
    | some related =>
      simp only [Option.map_some, Option.any_some]
      rw [related, settled_below]

end

end ClassLinker.Script
