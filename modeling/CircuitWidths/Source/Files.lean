import CircuitWidths.Source.Lines

/-!
# Source files

The texts that spans point into, numbered in the order in which they were added.
-/

namespace CircuitWidths

namespace Source

/-- A text and the path under which it is shown. -/
structure File where
  path : String
  text : String
  deriving DecidableEq, Repr

namespace File

/-- The characters of the text. -/
def chars (file : File) : List Char := file.text.toList

/-- The number of lines. -/
def lineCount (file : File) : Nat := Lines.count file.chars

/-- The position of a byte. -/
def position (file : File) (byte : Nat) : Position := Lines.position file.chars byte

/-- A span of this file seen through its lines. -/
def extent (file : File) (span : Span) : Extent :=
  ⟨span.file, file.position span.start, file.position span.stop⟩

/-- The offset at which a line starts. -/
def lineStart (file : File) (line : Nat) : Except Fault Nat := Lines.start file.chars line

/-- The offset at which a line ends, without its terminator. -/
def lineStop (file : File) (line : Nat) : Except Fault Nat := Lines.stop file.chars line

/-- The text between two offsets. -/
def slice (file : File) (start stop : Nat) : Except Fault (List Char) :=
  match Text.slice? file.chars start stop with
  | some text => .ok text
  | none => .error (.notText start stop)

end File

/-- The source files of a program. -/
structure Files where
  files : List File
  deriving DecidableEq, Repr

namespace Files

/-- The file with a number. -/
def get (sources : Files) (file : Nat) : Except Fault File :=
  match sources.files[file]? with
  | some found => .ok found
  | none => .error (.noSuchFile file)

/-- A span seen through the lines of its file. -/
def extent (sources : Files) (span : Span) : Except Fault Extent := do
  let file ← sources.get span.file
  .ok (file.extent span)

/-- The text of a span. -/
def textOf (sources : Files) (span : Span) : Except Fault String := do
  let file ← sources.get span.file
  let chars ← file.slice span.start span.stop
  .ok (String.ofList chars)

end Files

end Source

end CircuitWidths
