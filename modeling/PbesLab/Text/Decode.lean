namespace PbesLab.Text

def replacement : Char := '\ufffd'

/-- The bytes that may follow a lead byte, as closed ranges, and the bits of the lead byte. Overlong
forms, surrogates and numbers beyond the last code point have no place. -/
def continuation? (lead : Nat) : Option (Nat × List (Nat × Nat)) :=
  let any := (0x80, 0xBF)
  if lead < 0x80 then some (lead, [])
  else if lead < 0xC2 then none
  else if lead < 0xE0 then some (lead - 0xC0, [any])
  else if lead = 0xE0 then some (0, [(0xA0, 0xBF), any])
  else if lead = 0xED then some (0xD, [(0x80, 0x9F), any])
  else if lead < 0xF0 then some (lead - 0xE0, [any, any])
  else if lead = 0xF0 then some (0, [(0x90, 0xBF), any, any])
  else if lead < 0xF4 then some (lead - 0xF0, [any, any, any])
  else if lead = 0xF4 then some (4, [(0x80, 0x8F), any, any])
  else none

/-- Takes the bytes of a character that has begun: the code point, if they are all there, and
otherwise how many fit. -/
def takeContinuation (value taken : Nat) : List (Nat × Nat) → List UInt8 → Option Nat × Nat
  | [], _ => (some value, taken)
  | (low, high) :: ranges, b :: bs =>
    if low ≤ b.toNat ∧ b.toNat ≤ high then
      takeContinuation (value * 64 + b.toNat % 64) (taken + 1) ranges bs
    else (none, taken)
  | _ :: _, [] => (none, taken)

/-- Decodes characters, skipping over the bytes that have been used already. Each longest beginning
of a character that breaks off becomes one replacement character. -/
def decodeSkipping : Nat → List UInt8 → List Char
  | _, [] => []
  | n + 1, _ :: bs => decodeSkipping n bs
  | 0, b :: bs =>
    match continuation? b.toNat with
    | none => replacement :: decodeSkipping 0 bs
    | some (bits, ranges) =>
      match takeContinuation bits 0 ranges bs with
      | (some value, taken) => Char.ofNat value :: decodeSkipping taken bs
      | (none, taken) => replacement :: decodeSkipping taken bs

def decodeLossy (bytes : List UInt8) : List Char :=
  decodeSkipping 0 bytes

end PbesLab.Text
