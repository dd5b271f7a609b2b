import CircuitWidths.Renderer.Drawing

/-!
# Entries of a drawing

What the lines of a drawing show can be found again in its text: the places of sections, the numbers
of source lines, and footers.
-/

namespace CircuitWidths

namespace Diagnostic

/-- What a line of a drawing shows. -/
inductive Entry
  | header (text : String)
  | line (number : Nat)
  | footer (text : String)
  deriving DecidableEq, Repr

namespace Entry

/-- The number that decimal digits stand for. -/
def number (digits : List Char) : Nat :=
  digits.foldl (fun value digit => 10 * value + (digit.toNat - '0'.toNat)) 0

/-- Reads a line: after any blanks, an arrow and a blank start a header, a number that can be
counted and the frame a source line, and a sign of equality a footer. -/
def read? (line : List Char) : Option Entry :=
  let text := line.dropWhile (· == ' ')
  let digits := text.takeWhile Char.isDigit
  if (arrow 0 ++ " ").toList.isPrefixOf text || (arrow 1 ++ " ").toList.isPrefixOf text then
    some (.header (String.ofList text))
  else if "= ".toList.isPrefixOf text then
    some (.footer (String.ofList (text.drop 2)))
  else if !digits.isEmpty && " |".toList.isPrefixOf (text.dropWhile Char.isDigit) then
    if number digits ≤ Source.largestCount then some (.line (number digits)) else none
  else
    none

end Entry

/-- The pieces of a text between line feeds, when the characters of the first piece so far are
given in reverse. -/
def pieces (piece : List Char) : List Char → List (List Char)
  | [] => [piece.reverse]
  | char :: rest =>
    if char = '\n' then piece.reverse :: pieces [] rest else pieces (char :: piece) rest

/-- The lines of a drawing without its colours.  A row has several lines if a title, path or label in
it does. -/
def Drawing.lines (drawing : Drawing) : List (List Char) :=
  drawing.rows.flatMap fun row => pieces [] (Text.withoutColours 0 (row.map (·.char)))

end Diagnostic

end CircuitWidths
