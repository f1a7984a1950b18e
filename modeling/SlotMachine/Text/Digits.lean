/-!
# Digits

Reading and writing of numerals. A numeral is a list of ASCII digits, read from the most
significant one.
-/

namespace SlotMachine.Text

/-- Whether a character is one of the ten ASCII digits. -/
def isDigit (c : Char) : Bool :=
  '0' ≤ c && c ≤ '9'

/-- The value of an ASCII digit. -/
def digitValue (c : Char) : Nat :=
  c.toNat - 48

/-- The value of a numeral. -/
def numeral (digits : List Char) : Nat :=
  digits.foldl (fun n c => 10 * n + digitValue c) 0

/-- The value of a numeral as far as a limit: digits that follow once the limit is reached are
passed over. A value below the limit is exact, and any other stays at or above it. -/
def numeralUpTo (limit : Nat) (digits : List Char) : Nat :=
  digits.foldl (fun n c => if n < limit then 10 * n + digitValue c else n) 0

/-- An optional sign followed by at least one digit, and nothing else. Only sizes below the limit
are exact. -/
def readInteger (limit : Nat) (cs : List Char) : Option Int :=
  let unsigned (ds : List Char) : Option Nat :=
    if ds ≠ [] ∧ ds.all isDigit then some (numeralUpTo limit ds) else none
  match cs with
  | '-' :: ds => (unsigned ds).map fun n => -(n : Int)
  | '+' :: ds => (unsigned ds).map fun n => (n : Int)
  | ds => (unsigned ds).map fun n => (n : Int)

/-- The hexadecimal digit of a number below sixteen. -/
def hexDigit (n : Nat) : Char :=
  if n < 10 then Char.ofNat (48 + n) else Char.ofNat (87 + n)

/-- A byte as two hexadecimal digits. -/
def hexByte (b : UInt8) : String :=
  String.ofList [hexDigit (b.toNat / 16), hexDigit (b.toNat % 16)]

/-- A number in hexadecimal, without leading zeros. -/
def hexNat (n : Nat) : String :=
  String.ofList (Nat.toDigits 16 n)

/-- A number in decimal with zeros in front, up to the given width. -/
def padded (width n : Nat) : String :=
  let digits := (toString n).toList
  String.ofList (List.replicate (width - digits.length) '0' ++ digits)

end SlotMachine.Text
