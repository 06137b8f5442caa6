set_option autoImplicit false

namespace ClassLinker.Text

def byteSize : List Char → Nat
  | [] => 0
  | c :: rest => c.utf8Size + byteSize rest

@[simp] theorem byteSize_append (xs ys : List Char) :
    byteSize (xs ++ ys) = byteSize xs + byteSize ys := by
  induction xs with
  | nil => simp [byteSize]
  | cons c rest ih => simp [byteSize, ih, Nat.add_assoc]

/-- The text from byte `n` on; a character that the cut would split is kept whole. -/
def dropBytes : Nat → List Char → List Char
  | _, [] => []
  | n, c :: rest => if c.utf8Size ≤ n then dropBytes (n - c.utf8Size) rest else c :: rest

/-- The text before byte `n`; a character that the cut would split is left out. -/
def takeBytes : Nat → List Char → List Char
  | _, [] => []
  | n, c :: rest => if c.utf8Size ≤ n then c :: takeBytes (n - c.utf8Size) rest else []

theorem takeBytes_append_dropBytes (n : Nat) (cs : List Char) :
    takeBytes n cs ++ dropBytes n cs = cs := by
  induction cs generalizing n with
  | nil => rfl
  | cons c rest ih =>
    unfold takeBytes dropBytes
    split
    next => simp [ih]
    next => rfl

@[simp] theorem dropBytes_byteSize (pre rest : List Char) :
    dropBytes (byteSize pre) (pre ++ rest) = rest := by
  induction pre with
  | nil =>
    cases rest with
    | nil => rfl
    | cons c cs => simp [byteSize, dropBytes, Nat.not_le.mpr c.utf8Size_pos]
  | cons c cs ih => simp [byteSize, dropBytes, ih]

@[simp] theorem takeBytes_byteSize (pre rest : List Char) :
    takeBytes (byteSize pre) (pre ++ rest) = pre := by
  induction pre with
  | nil =>
    cases rest with
    | nil => rfl
    | cons c cs => simp [byteSize, takeBytes, Nat.not_le.mpr c.utf8Size_pos]
  | cons c cs ih => simp [byteSize, takeBytes, ih]

def isBoundary (source : List Char) (offset : Nat) : Bool :=
  byteSize (takeBytes offset source) = offset

def offsetsFrom (n : Nat) : List Char → List Nat
  | [] => [n]
  | c :: rest => n :: offsetsFrom (n + c.utf8Size) rest

theorem mem_offsetsFrom (n k : Nat) (cs : List Char) :
    k ∈ offsetsFrom n cs ↔ n ≤ k ∧ isBoundary cs (k - n) = true := by
  induction cs generalizing n with
  | nil =>
    simp [offsetsFrom, isBoundary, takeBytes, byteSize]
    omega
  | cons c rest ih =>
    have positive := c.utf8Size_pos
    by_cases fits : c.utf8Size ≤ k - n
    next =>
      have cut : k - n - c.utf8Size = k - (n + c.utf8Size) := by omega
      simp only [offsetsFrom, List.mem_cons, ih, isBoundary, takeBytes, if_pos fits, byteSize, cut, decide_eq_true_eq]
      omega
    next =>
      simp only [offsetsFrom, List.mem_cons, ih, isBoundary, takeBytes, if_neg fits, byteSize, decide_eq_true_eq]
      omega

def slice (source : List Char) (start stop : Nat) : List Char :=
  takeBytes (stop - start) (dropBytes start source)

/-- A place in a text as people count it: lines and columns start at one, columns count bytes. -/
structure Position where
  line : Nat
  column : Nat
deriving DecidableEq, Repr

def Position.start : Position := ⟨1, 1⟩

def Position.next (p : Position) (c : Char) : Position :=
  if c = '\n' then ⟨p.line + 1, 1⟩ else ⟨p.line, p.column + c.utf8Size⟩

def positionAt (source : List Char) (offset : Nat) : Position :=
  (takeBytes offset source).foldl Position.next Position.start

end ClassLinker.Text
