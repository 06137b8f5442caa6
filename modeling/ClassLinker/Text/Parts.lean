set_option autoImplicit false

namespace ClassLinker.Text

def isWhite (c : Char) : Bool :=
  let n := c.toNat
  (9 ≤ n && n ≤ 13) || n = 0x20 || n = 0x85 || n = 0xA0 || n = 0x1680 || (0x2000 ≤ n && n ≤ 0x200A) ||
    n = 0x2028 || n = 0x2029 || n = 0x202F || n = 0x205F || n = 0x3000

def dropEnd (p : Char → Bool) (cs : List Char) : List Char :=
  (cs.reverse.dropWhile p).reverse

def trimmed (cs : List Char) : List Char :=
  dropEnd isWhite (cs.dropWhile isWhite)

def splitOn (sep : Char) : List Char → List (List Char)
  | [] => [[]]
  | c :: rest =>
    if c = sep then [] :: splitOn sep rest
    else match splitOn sep rest with
      | [] => [[c]]
      | part :: more => (c :: part) :: more

def joinWith (sep : Char) : List (List Char) → List Char
  | [] => []
  | [part] => part
  | part :: more => part ++ sep :: joinWith sep more

theorem splitOn_ne_nil (sep : Char) (cs : List Char) : splitOn sep cs ≠ [] := by
  induction cs with
  | nil => simp [splitOn]
  | cons c rest ih =>
    unfold splitOn
    split
    next => simp
    next => cases parts : splitOn sep rest <;> simp_all

@[simp] theorem joinWith_splitOn (sep : Char) (cs : List Char) : joinWith sep (splitOn sep cs) = cs := by
  induction cs with
  | nil => rfl
  | cons c rest ih =>
    unfold splitOn
    cases parts : splitOn sep rest with
    | nil => exact absurd parts (splitOn_ne_nil sep rest)
    | cons part more =>
      rw [parts] at ih
      by_cases same : c = sep
      · simp [same, joinWith, ih]
      · cases more with
        | nil => simp_all [joinWith]
        | cons next tail => simp_all [joinWith]

theorem not_mem_of_mem_splitOn {sep : Char} {cs part : List Char} (member : part ∈ splitOn sep cs) :
    sep ∉ part := by
  induction cs generalizing part with
  | nil => simp_all [splitOn]
  | cons c rest ih =>
    unfold splitOn at member
    by_cases same : c = sep
    · simp only [same, if_true, List.mem_cons] at member
      rcases member with rfl | member
      · simp
      · exact ih member
    · simp only [same, if_false] at member
      cases parts : splitOn sep rest with
      | nil => exact absurd parts (splitOn_ne_nil sep rest)
      | cons first more =>
        rw [parts] at ih
        simp only [parts, List.mem_cons] at member
        rcases member with rfl | member
        · have := ih (List.mem_cons_self)
          simp_all [Ne.symm, eq_comm]
        · exact ih (List.mem_cons_of_mem _ member)

def dropStart? (pre cs : List Char) : Option (List Char) := pre.isPrefixOf? cs

def dropEnd? (post cs : List Char) : Option (List Char) :=
  (post.reverse.isPrefixOf? cs.reverse).map List.reverse

def startsWith (pre cs : List Char) : Bool := pre.isPrefixOf cs

def endsWith (post cs : List Char) : Bool := post.reverse.isPrefixOf cs.reverse

def hasPart (part : List Char) : List Char → Bool
  | [] => part.isEmpty
  | c :: rest => part.isPrefixOf (c :: rest) || hasPart part rest

end ClassLinker.Text
