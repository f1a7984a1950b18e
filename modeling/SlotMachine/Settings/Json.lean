import SlotMachine.Double.Decimal
import SlotMachine.Fault
import SlotMachine.Text.Utf8

/-!
# Scanning JSON

The pieces of a JSON document, read from its bytes. Scanning reports only how a document fails: it
breaks the grammar, has contents of the wrong type, or ends too early. Values that nobody asks for
are skipped with an explicit stack, so they may be nested to any depth.
-/

namespace SlotMachine

/-- An action that reads from the bytes of a document. -/
abbrev Scan (α : Type) := EStateM SettingsFlaw (List UInt8) α

namespace Scan

/-- The byte of an ASCII character. -/
def code (c : Char) : UInt8 := UInt8.ofNat c.toNat

/-- Whether a byte is white space between tokens. -/
def isBlank (b : UInt8) : Bool :=
  b == code ' ' || b == code '\n' || b == code '\t' || b == code '\r'

/-- Whether a byte is a digit. -/
def isDigit (b : UInt8) : Bool :=
  code '0' ≤ b && b ≤ code '9'

/-- The next byte, which is not consumed. -/
def peek : Scan (Option UInt8) := fun bytes => .ok bytes.head? bytes

/-- The next byte after white space, which is not consumed. -/
def token : Scan (Option UInt8) := fun bytes =>
  let bytes := bytes.dropWhile isBlank
  .ok bytes.head? bytes

/-- Consume one byte. -/
def skip : Scan Unit := modify List.tail

/-- The next byte. -/
def next : Scan UInt8 := do
  match ← peek with
  | none => throw .truncated
  | some b =>
    skip
    pure b

/-- Consume digits. -/
def digits : Scan (List Nat) := fun bytes =>
  .ok ((bytes.takeWhile isDigit).map fun b => b.toNat - 48) (bytes.dropWhile isDigit)

/-- Consume exactly these bytes. -/
def literal : List Char → Scan Unit
  | [] => pure ()
  | c :: cs => do
    if (← next) = code c then literal cs else throw .grammar

/-- Consume one of the words `null`, `true` and `false`, of which the first letter is known. -/
def keyword (first : UInt8) : Scan Unit :=
  if first = code 'n' then literal "null".toList
  else if first = code 't' then literal "true".toList
  else literal "false".toList

/-- Whether a byte begins one of the words. -/
def beginsKeyword (b : UInt8) : Bool :=
  b == code 'n' || b == code 't' || b == code 'f'

/-! ## Strings -/

/-- The value of a hexadecimal digit. -/
def hexValue? (b : UInt8) : Option Nat :=
  let n := b.toNat
  if 48 ≤ n ∧ n ≤ 57 then some (n - 48)
  else if 97 ≤ n ∧ n ≤ 102 then some (n - 87)
  else if 65 ≤ n ∧ n ≤ 70 then some (n - 55)
  else none

/-- Four hexadecimal digits. -/
def hexUnit : Scan Nat := fun bytes =>
  match bytes with
  | a :: b :: c :: d :: rest =>
    match hexValue? a, hexValue? b, hexValue? c, hexValue? d with
    | some a, some b, some c, some d => .ok (((a * 16 + b) * 16 + c) * 16 + d) rest
    | _, _, _, _ => .error .grammar rest
  | _ => .error .truncated []

/-- The character of an escape with hexadecimal digits. Characters beyond the first plane are
written as a pair of surrogates, and a lone surrogate is refused. -/
def unicodeEscape : Scan Char := do
  let unit ← hexUnit
  if 0xDC00 ≤ unit ∧ unit ≤ 0xDFFF then throw .grammar
  else if 0xD800 ≤ unit ∧ unit ≤ 0xDBFF then
    if (← next) ≠ code '\\' then throw .grammar
    if (← next) ≠ code 'u' then throw .grammar
    let second ← hexUnit
    if 0xDC00 ≤ second ∧ second ≤ 0xDFFF then
      pure (Char.ofNat ((unit - 0xD800) * 1024 + (second - 0xDC00) + 0x10000))
    else throw .grammar
  else pure (Char.ofNat unit)

/-- The character that a letter after a backslash stands for. -/
def simpleEscape? (b : UInt8) : Option Char :=
  [('"', '"'), ('\\', '\\'), ('/', '/'), ('b', '\x08'), ('f', '\x0c'), ('n', '\n'), ('r', '\r'),
    ('t', '\t')].findSome? fun (letter, c) => if code letter = b then some c else none

/-- Read a string up to the closing quote, the opening one being consumed. `unit` reads the digits
of an escape and gives the bytes that they stand for. -/
def stringWith (unit : Scan (List UInt8)) : Nat → Scan (List UInt8)
  | 0 => throw .truncated
  | fuel + 1 => do
    let b ← next
    if b = code '"' then pure []
    else if b < 0x20 then throw .grammar
    else if b = code '\\' then
      let letter ← next
      let bytes ←
        if letter = code 'u' then unit
        else
          match simpleEscape? letter with
          | some c => pure (Text.utf8 c.toString)
          | none => throw .grammar
      let others ← stringWith unit fuel
      pure (bytes ++ others)
    else
      let others ← stringWith unit fuel
      pure (b :: others)

/-- The contents of a string, the opening quote being consumed. -/
def string : Scan String := do
  let unit : Scan (List UInt8) := do pure (Text.utf8 (← unicodeEscape).toString)
  let bytes ← stringWith unit ((← get).length + 1)
  match Text.ofUtf8? bytes with
  | some s => pure s
  | none => throw .grammar

/-- Skip a string, the opening quote being consumed. Any four digits pass as an escape. -/
def skipString : Scan Unit := do
  let unit : Scan (List UInt8) := do
    let _ ← hexUnit
    pure []
  let _ ← stringWith unit ((← get).length + 1)

/-! ## Numbers -/

/-- Take in digits as long as the number stays below `2 ^ 64`. The result is the number and how
many digits were taken in. -/
def absorb (n : Nat) : List Nat → Nat × Nat
  | [] => (n, 0)
  | d :: ds =>
    if 10 * n + d < UInt64.size then
      let (m, taken) := absorb (10 * n + d) ds
      (m, taken + 1)
    else (n, 0)

/-- Whether `n * 10 ^ exponent` is too large for a double. -/
def exceedsDouble (n : Nat) (exponent : Int) : Bool :=
  if exponent < 0 ∨ n = 0 then false
  else if 308 < exponent then true
  else ((Double.ofInt n).mul (Double.ofInt (Nat.pow 10 exponent.toNat))).isInfinite

/-- The digits after a point, at least one. -/
def decimals : Scan (List Nat) := do
  match ← digits with
  | [] => if (← peek).isNone then throw .truncated else throw .grammar
  | ds => pure ds

/-- The exponent after its mark: an optional sign and at least one digit. -/
def exponent : Scan Int := do
  let sign ← peek
  if sign = some (code '+') ∨ sign = some (code '-') then skip
  match ← digits with
  | [] => if (← peek).isNone then throw .truncated else throw .grammar
  | ds =>
    let n : Nat := ds.foldl (fun n d => 10 * n + d) 0
    pure (if sign = some (code '-') then -(n : Int) else n)

/-- The digits in front of a point or exponent. A zero stands alone. -/
def wholeDigits : Scan (List Nat) := do
  match ← digits with
  | [] => if (← peek).isNone then throw .truncated else throw .grammar
  | [0] => pure [0]
  | 0 :: _ => throw .grammar
  | ds => pure ds

/-- Whether the next byte marks an exponent, in which case it is consumed. -/
def exponentMark : Scan Bool := do
  let b ← peek
  if b = some (code 'e') ∨ b = some (code 'E') then
    skip
    pure true
  else pure false

/-- Whether the next byte is a point, in which case it is consumed. -/
def point : Scan Bool := do
  if (← peek) = some (code '.') then
    skip
    pure true
  else pure false

/-- A number. The result is its value if it is written as an integer from 0 to `2 ^ 64 - 1` without
a sign. A number too large for a double is refused. -/
def number : Scan (Option Nat) := do
  let negative := (← peek) == some (code '-')
  if negative then skip
  let whole ← wholeDigits
  let (n, taken) := absorb 0 whole
  let dropped := whole.length - taken
  let hasPoint ← point
  let fraction ← if hasPoint then decimals else pure []
  let (n, taken) := absorb n fraction
  let hasExponent ← exponentMark
  let e : Int ← if hasExponent then exponent else pure 0
  if exceedsDouble n ((dropped : Int) - (taken : Int) + e) then throw .grammar
  if negative || hasPoint || hasExponent || dropped != 0 then pure none else pure (some n)

/-- Skip a number of any size. Here a number that ends too early breaks the grammar. -/
def skipNumber : Scan Unit := do
  if (← peek) = some (code '-') then skip
  match ← digits with
  | [] => throw .grammar
  | 0 :: _ :: _ => throw .grammar
  | _ => pure ()
  if ← point then
    if (← digits).isEmpty then throw .grammar
  if ← exponentMark then
    let sign ← peek
    if sign = some (code '+') ∨ sign = some (code '-') then skip
    if (← digits).isEmpty then throw .grammar

/-- Whether a byte begins a number. -/
def beginsNumber (b : UInt8) : Bool :=
  b == code '-' || isDigit b

/-! ## Skipping -/

/-- An open bracket. -/
inductive Bracket where
  /-- Of an array. -/
  | square
  /-- Of an object. -/
  | curly
  deriving DecidableEq

/-- The byte that closes a bracket. -/
def Bracket.closer : Bracket → UInt8
  | square => code ']'
  | curly => 0x7D

/-- The bracket that a byte opens. -/
def Bracket.ofOpener? (b : UInt8) : Option Bracket :=
  if b = code '[' then some .square
  else if b = 0x7B then some .curly
  else none

/-- What comes next while values are skipped. -/
inductive Expected where
  /-- A value. -/
  | value
  /-- The first item inside a bracket, or its end. -/
  | firstItem
  /-- A comma, or the end of the innermost bracket. -/
  | separator
  deriving DecidableEq

/-- Consume the colon after a key. -/
def colon : Scan Unit := do
  match ← token with
  | none => throw .truncated
  | some b => if b = code ':' then skip else throw .grammar

/-- Consume the opening quote of a key. -/
def openKey : Scan Unit := do
  match ← token with
  | none => throw .truncated
  | some b => if b = code '"' then skip else throw .grammar

/-- Inside an object, skip a key and its colon. -/
def skipKey : Bracket → Scan Unit
  | .square => pure ()
  | .curly => do
    openKey
    skipString
    colon

/-- Skip a value that is no array and no object. -/
def skipScalar (b : UInt8) : Scan Unit :=
  if beginsKeyword b then keyword b
  else if beginsNumber b then skipNumber
  else if b = code '"' then do
    skip
    skipString
  else throw .grammar

/-- Skip what is expected and everything up to the end of the outermost open bracket. -/
def skipOpen : Nat → Expected → List Bracket → Scan Unit
  | 0, _, _ => throw .truncated
  | fuel + 1, .value, stack => do
    match ← token with
    | none => throw .truncated
    | some b =>
      match Bracket.ofOpener? b with
      | some bracket => do
        skip
        skipOpen fuel .firstItem (bracket :: stack)
      | none => do
        skipScalar b
        skipOpen fuel .separator stack
  | _ + 1, .firstItem, [] => pure ()
  | fuel + 1, .firstItem, bracket :: stack => do
    match ← token with
    | none => throw .truncated
    | some b =>
      if b = bracket.closer then
        skip
        skipOpen fuel .separator stack
      else
        skipKey bracket
        skipOpen fuel .value (bracket :: stack)
  | _ + 1, .separator, [] => pure ()
  | fuel + 1, .separator, bracket :: stack => do
    match ← token with
    | none => throw .truncated
    | some b =>
      if b = bracket.closer then
        skip
        skipOpen fuel .separator stack
      else if b = code ',' then
        skip
        skipKey bracket
        skipOpen fuel .value (bracket :: stack)
      else throw .grammar

/-- Skip a value. Two turns for each byte are enough. -/
def skipValue : Scan Unit := do
  skipOpen (2 * (← get).length + 2) .value []

/-- Refuse a value of the wrong type. A scalar has to be well-formed to count as one. -/
def wrongType {α : Type} : Scan α := do
  match ← token with
  | none => throw .truncated
  | some b =>
    if beginsKeyword b then keyword b
    else if beginsNumber b then
      let _ ← number
    else if b = code '"' then
      skip
      let _ ← string
    else if (Bracket.ofOpener? b).isNone then throw .grammar
    throw .content

/-- A value that has to be a string. -/
def expectString : Scan String := do
  if (← token) = some (code '"') then
    skip
    string
  else wrongType

/-- A value that has to be an integer from 0 to `2 ^ 64 - 1`. -/
def expectNatural : Scan Nat := do
  match ← token with
  | none => throw .truncated
  | some b =>
    if beginsNumber b then
      match ← number with
      | some n => pure n
      | none => throw .content
    else wrongType

end Scan

end SlotMachine
