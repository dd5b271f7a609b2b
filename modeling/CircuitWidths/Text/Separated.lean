/-!
# Separated text

Items written one after another with a separator between neighbours, continuing a text that is
already there.  The texts of types and signatures are built from it.
-/

namespace CircuitWidths

namespace Text

/-- The items with `separator` between neighbours. -/
def separated (separator : String) : List String → String
  | [] => ""
  | [item] => item
  | item :: next :: rest => item ++ separator ++ separated separator (next :: rest)

/-- `start` continued by the separated items. -/
def appendSeparated (start separator : String) (items : List String) : String :=
  start ++ separated separator items

end Text

end CircuitWidths
