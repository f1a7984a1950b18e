/-!
# Variable-length numbers

A number is written in base 128, least significant digit first, one digit per byte; the high bit
of a byte tells that another one follows. Numbers that are read must be below `2 ^ 64`.
-/

namespace SlotMachine.Uleb

/-- The shortest encoding of a number. -/
def encode (n : Nat) : List UInt8 :=
  if n < 128 then [UInt8.ofNat n] else UInt8.ofNat (n % 128 + 128) :: encode (n / 128)

/-- Decode the digits from the given place on. Places 0 to 8 take any digit, place 9 only 0 and 1,
and there is no place 10. The result is the number and how many bytes it takes. -/
def decodeFrom (place : Nat) : List UInt8 → Option (Nat × Nat)
  | [] => none
  | b :: rest =>
    let digit := b.toNat % 128
    if 10 ≤ place ∨ (place = 9 ∧ 1 < digit) then none
    else if b.toNat < 128 then some (digit, 1)
    else (decodeFrom (place + 1) rest).map fun (n, used) => (digit + 128 * n, used + 1)

/-- The number at the front of the bytes and how many bytes it takes. -/
def decode (bytes : List UInt8) : Option (Nat × Nat) :=
  decodeFrom 0 bytes

end SlotMachine.Uleb
