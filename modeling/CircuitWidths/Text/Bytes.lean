/-!
# Byte ranges of texts

Offsets into a text count the bytes of its UTF-8 encoding.  A range of bytes is a piece of text
only if both of its ends fall between two characters.
-/

namespace CircuitWidths

namespace Text

/-- The number of bytes that the characters take up. -/
def byteLength : List Char → Nat
  | [] => 0
  | char :: rest => char.utf8Size + byteLength rest

/-- What follows the first `count` bytes, unless they end inside a character or after the last
one. -/
def dropBytes? : Nat → List Char → Option (List Char)
  | 0, chars => some chars
  | _ + 1, [] => none
  | count + 1, char :: rest =>
    if char.utf8Size ≤ count + 1 then dropBytes? (count + 1 - char.utf8Size) rest else none

/-- The first `count` bytes, unless they end inside a character or after the last one. -/
def takeBytes? : Nat → List Char → Option (List Char)
  | 0, _ => some []
  | _ + 1, [] => none
  | count + 1, char :: rest =>
    if char.utf8Size ≤ count + 1 then
      (takeBytes? (count + 1 - char.utf8Size) rest).map (char :: ·)
    else
      none

/-- The piece of text from byte `start` to byte `stop`. -/
def slice? (chars : List Char) (start stop : Nat) : Option (List Char) :=
  if start ≤ stop then (dropBytes? start chars).bind (takeBytes? (stop - start)) else none

end Text

end CircuitWidths
