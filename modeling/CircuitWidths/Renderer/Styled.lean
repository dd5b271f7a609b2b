/-!
# Text with colours

Every character of a styled text has a colour or none.  Where the colour changes, the sequences
that a terminal understands are written, and each text ends without a colour.
-/

namespace CircuitWidths

namespace Text

/-- A character and the code of its colour, if it has one. -/
structure Cell where
  char : Char
  colour : Option Nat
  deriving DecidableEq, Repr

/-- Characters without colour. -/
def plain (text : List Char) : List Cell := text.map (⟨·, none⟩)

/-- Characters of one colour. -/
def coloured (code : Nat) (text : List Char) : List Cell := text.map (⟨·, some code⟩)

/-- The sequence that ends a colour. -/
def resetSequence : List Char := "\x1b[0m".toList

/-- The sequence that begins a colour. -/
def colourSequence (code : Nat) : List Char := ("\x1b[1m\x1b[" ++ code.repr ++ "m").toList

/-- What is written where one colour gives way to another. -/
def switchColour (current next : Option Nat) : List Char :=
  if current = next then []
  else (current.elim [] fun _ => resetSequence) ++ next.elim [] colourSequence

/-- The characters of a row with terminal sequences, when `current` is the colour so far. -/
def paintFrom (current : Option Nat) : List Cell → List Char
  | [] => switchColour current none
  | cell :: rest => switchColour current cell.colour ++ cell.char :: paintFrom cell.colour rest

/-- The text of a row of cells. -/
def paint (styled : Bool) (cells : List Cell) : String :=
  String.ofList (if styled then paintFrom none cells else cells.map (·.char))

/-- What follows the digits and semicolons of a sequence for colours, unless another character than
its end does. -/
def afterSequence? : List Char → Option (List Char)
  | [] => none
  | char :: rest =>
    if char = 'm' then some rest
    else if char.isDigit || char == ';' then afterSequence? rest
    else none

/-- The text that is left when `skip` characters and all sequences for colours are taken out. -/
def withoutColours (skip : Nat) : List Char → List Char
  | [] => []
  | char :: rest =>
    match skip with
    | more + 1 => withoutColours more rest
    | 0 =>
      if char = '\x1b' ∧ rest.head? = some '[' then
        match afterSequence? rest.tail with
        | some left => withoutColours (rest.length - left.length) rest
        | none => char :: withoutColours 0 rest
      else
        char :: withoutColours 0 rest

/-- Blanks. -/
def blanks (count : Nat) : List Char := List.replicate count ' '

/-- Writes cells over a row from a column on.  A row that ends before is filled up with blanks. -/
def overwrite (column : Nat) (cells row : List Cell) : List Cell :=
  if cells.isEmpty then row
  else
    row.take column ++ plain (blanks (column - row.length)) ++ cells ++
      row.drop (column + cells.length)

end Text

end CircuitWidths
