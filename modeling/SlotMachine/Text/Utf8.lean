/-!
# Texts as bytes

The UTF-8 bytes of a text, and the text that bytes denote.
-/

namespace SlotMachine.Text

/-- The bytes of a text. -/
def utf8 (s : String) : List UInt8 :=
  s.toUTF8.data.toList

/-- The text of which these are the bytes, if they are well-formed. -/
def ofUtf8? (bytes : List UInt8) : Option String :=
  String.fromUTF8? ⟨bytes.toArray⟩

/-- The order of two texts by their bytes. -/
def compareBytes (a b : String) : Ordering :=
  compareOfLessAndEq (utf8 a) (utf8 b)

end SlotMachine.Text
