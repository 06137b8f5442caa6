import ClassLinker.Text.Bytes

set_option autoImplicit false

namespace ClassLinker.Script

structure Point where
  rest : List Char
  offset : Nat

namespace Point

def advance (p : Point) (n : Nat) : Point :=
  { rest := p.rest.drop n, offset := p.offset + Text.byteSize (p.rest.take n) }

@[simp] theorem advance_zero (p : Point) : p.advance 0 = p := by
  simp [advance, Text.byteSize]

def advanceWhile (p : Point) (inside : Char → Bool) : Point :=
  p.advance (p.rest.takeWhile inside).length

/-- Takes `step` as long as it goes, and at most once for each character that is left. -/
def repeated (step : Point → Option Point) (p : Point) : Point :=
  go p.rest p
where
  go : List Char → Point → Point
    | [], p => p
    | _ :: more, p =>
      match step p with
      | some q => go more q
      | none => p

end Point

end ClassLinker.Script
