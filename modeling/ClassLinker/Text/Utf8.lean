set_option autoImplicit false

namespace ClassLinker.Text

/-- How many bytes a character has that starts with a byte, and the range of its second byte; `none` for bytes that
start no character. -/
def leadOf (b : Nat) : Option (Nat × Nat × Nat) :=
  if b < 0x80 then some (1, 0x80, 0xBF)
  else if b < 0xC2 then none
  else if b < 0xE0 then some (2, 0x80, 0xBF)
  else if b = 0xE0 then some (3, 0xA0, 0xBF)
  else if b = 0xED then some (3, 0x80, 0x9F)
  else if b < 0xF0 then some (3, 0x80, 0xBF)
  else if b = 0xF0 then some (4, 0x90, 0xBF)
  else if b < 0xF4 then some (4, 0x80, 0xBF)
  else if b = 0xF4 then some (4, 0x80, 0x8F)
  else none

def continuation : Nat → Nat → Nat → List UInt8 → List UInt8
  | 0, _, _, _ => []
  | _ + 1, _, _, [] => []
  | n + 1, low, high, b :: rest =>
    if low ≤ b.toNat && b.toNat ≤ high then b :: continuation n 0x80 0xBF rest else []

def replacement : Char := Char.ofNat 0xFFFD

/-- The characters of a text in UTF-8. Bytes that start a character but do not end it are replaced together. -/
def decode : Nat → List UInt8 → List Char
  | 0, _ => []
  | _ + 1, [] => []
  | n + 1, b :: rest =>
    match leadOf b.toNat with
    | none => replacement :: decode n rest
    | some (size, low, high) =>
      let more := continuation (size - 1) low high rest
      let start := if size = 1 then b.toNat else b.toNat % 2 ^ (7 - size)
      let code := more.foldl (fun code b => code * 64 + b.toNat % 64) start
      let c := if more.length = size - 1 then Char.ofNat code else replacement
      c :: decode n (rest.drop more.length)

def ofBytes (bytes : List UInt8) : List Char := decode bytes.length bytes

end ClassLinker.Text
