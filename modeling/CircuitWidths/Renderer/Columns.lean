import CircuitWidths.Renderer.Width

/-!
# Columns of a text

Where the characters of a row stand, which of them leave it blank, and how a row is written so that
its columns can be counted.
-/

namespace CircuitWidths

namespace Text

/-- Whether a character is white space, by the Unicode property of that name. -/
def isBlank (char : Char) : Bool :=
  let code := char.toNat
  (9 ≤ code && code ≤ 13) || code == 32 || code == 0x85 || code == 0xA0 || code == 0x1680 ||
    (0x2000 ≤ code && code ≤ 0x200A) || code == 0x2028 || code == 0x2029 || code == 0x202F ||
    code == 0x205F || code == 0x3000

/-- The columns of the characters, where one without a width counts as `other`. -/
def columns (other : Nat) : List Char → Nat
  | [] => 0
  | char :: rest => (width? char).getD other + columns other rest

/-- The columns of the blanks with which a text begins; a tabulator counts as four. -/
def indentation : List Char → Nat
  | [] => 0
  | char :: rest =>
    if isBlank char then (if char = '\t' then 4 else 1) + indentation rest else 0

/-- Whether a character joins others or turns the direction of writing. -/
def isFormatting (char : Char) : Bool :=
  let code := char.toNat
  code == 0x200D || (0x202A ≤ code && code ≤ 0x202E) || (0x2066 ≤ code && code ≤ 0x2069)

/-- A text as it is written in a row: a tabulator is four blanks, and formatting is left out. -/
def flatten : List Char → List Char
  | [] => []
  | char :: rest =>
    if char = '\t' then ' ' :: ' ' :: ' ' :: ' ' :: flatten rest
    else if isFormatting char then flatten rest
    else char :: flatten rest

/-- The first characters that fit into a number of columns. -/
def fitting : Nat → List Char → List Char
  | _, [] => []
  | room, char :: rest =>
    let width := (width? char).getD 1
    if width ≤ room then char :: fitting (room - width) rest else []

end Text

end CircuitWidths
