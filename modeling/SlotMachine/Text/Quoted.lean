import SlotMachine.Text.Digits
import SlotMachine.Text.Shown

/-!
# Quoted texts

A text in double quotes, in which quotes, backslashes and characters that are not shown as
themselves are escaped.
-/

namespace SlotMachine.Text

/-- The escaped form of one character. -/
def escape (c : Char) : String :=
  match c with
  | '\x00' => "\\0"
  | '\t' => "\\t"
  | '\r' => "\\r"
  | '\n' => "\\n"
  | '\\' => "\\\\"
  | '"' => "\\\""
  | _ => if isShown c then c.toString else "\\u\x7b" ++ hexNat c.toNat ++ "\x7d"

/-- The quoted form of a text. -/
def quoted (s : String) : String :=
  "\"" ++ String.join (s.toList.map escape) ++ "\""

end SlotMachine.Text
