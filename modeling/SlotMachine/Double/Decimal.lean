import SlotMachine.Double
import SlotMachine.Text.Digits

/-!
# Decimal text of doubles

Writing with a fixed number of decimals, rounded from the exact value, and reading of decimal
numerals, rounded to the nearest double.
-/

namespace SlotMachine.Double

/-- The text with exactly `places` decimals, a half going to the even digit. The sign is written
also for numbers that round to zero. -/
def toFixed (places : Nat) (d : Double) : String :=
  if d.isNaN then "NaN"
  else
    let sign := if d.isNegative then "-" else ""
    if d.isInfinite then sign ++ "inf"
    else
      let unit := Nat.pow 10 places
      let scaled := roundDiv (d.numerator * unit) d.denominator
      sign ++ toString (scaled / unit) ++ "." ++ Text.padded places (scaled % unit)

/-- How many significant digits are read. A double, and a number half-way between two doubles, has
at most 767, so of further digits it only matters whether all of them are zeros. -/
def digitLimit : Nat := 800

/-- The double nearest to `digits * 10 ^ exponent`. Exponents so far out that the result must be
infinite or zero are settled by the length of the numeral, and a single 1 stands for all digits
after the limit unless they are zeros. -/
def ofDecimal (negative : Bool) (digits : List Char) (exponent : Int) : Double :=
  let significant := digits.dropWhile (· == '0')
  let order : Int := significant.length + exponent
  if significant = [] ∨ order < -400 then ofRatio negative 0 1
  else if 400 < order then ofMagnitude negative infinityMagnitude
  else
    let further := significant.drop digitLimit
    let read := significant.take digitLimit ++ (if further.all (· == '0') then [] else ['1'])
    let exponent := order - read.length
    ofRatio negative (Text.numeral read * Nat.pow 10 exponent.toNat)
      (Nat.pow 10 (-exponent).toNat)

/-- The size from which on the digits of an exponent are passed over. Such an exponent lies far
outside the range of doubles, unless the numeral has tens of thousands of digits. -/
def exponentLimit : Nat := 65536

/-- The exponent part of a numeral: nothing, or `e`, an optional sign and at least one digit. -/
def readExponent (cs : List Char) : Option Int :=
  match cs with
  | [] => some 0
  | c :: rest => if c = 'e' ∨ c = 'E' then Text.readInteger exponentLimit rest else none

/-- A numeral without sign: digits with at most one point among them and at least one digit, then
an optional exponent. -/
def readUnsigned (negative : Bool) (cs : List Char) : Option Double :=
  let whole := cs.takeWhile Text.isDigit
  let rest := cs.dropWhile Text.isDigit
  let (decimals, rest) := match rest with
    | '.' :: more => (more.takeWhile Text.isDigit, more.dropWhile Text.isDigit)
    | _ => ([], rest)
  if whole = [] ∧ decimals = [] then none
  else
    (readExponent rest).map fun exponent =>
      ofDecimal negative (whole ++ decimals) (exponent - decimals.length)

/-- A numeral, or the name of an infinity or NaN in any case, after an optional sign. -/
def read? (cs : List Char) : Option Double :=
  let (negative, body) := match cs with
    | '-' :: rest => (true, rest)
    | '+' :: rest => (false, rest)
    | _ => (false, cs)
  let lower := String.ofList (body.map Char.toLower)
  if lower = "inf" ∨ lower = "infinity" then some (ofMagnitude negative infinityMagnitude)
  else if lower = "nan" then some (ofMagnitude negative nan.magnitude)
  else readUnsigned negative body

end SlotMachine.Double
