import CircuitWidths.Proofs.Supply
import CircuitWidths.Text.Separated

/-!
# Texts that can be read back

A text determines what it is the text of if it can be read off from the left: whatever follows, the
reader knows where it ends.  For a word this takes only that no further letter follows
(`word_unique`), and a list can be read off if its items can, up to a comma or the end of the list
(`separated_reads`).
-/

namespace CircuitWidths

namespace Text

/-! ## Identifiers -/

/-- Letters, digits, the underscore and the dollar sign; all characters outside of ASCII count as
letters. -/
def isNameChar (char : Char) : Bool :=
  char.isAlphanum || char == '_' || char == '$' || 128 ≤ char.toNat

/-- The text is a name that can not be taken for a literal. -/
structure IsIdentifier (name : String) : Prop where
  nonempty : name ≠ ""
  chars : ∀ char ∈ name.toList, isNameChar char = true
  start : ∀ char ∈ name.toList.head?, char.isDigit = false
  ne_true : name ≠ "true"
  ne_false : name ≠ "false"

/-- A property of all characters of a list is decided by going through the list. -/
theorem forall_mem_of_all {property : Char → Prop} [DecidablePred property] {chars : List Char}
    (all : (chars.all fun char => decide (property char)) = true) :
    ∀ char ∈ chars, property char := by
  simpa using all

instance (name : String) : Decidable (IsIdentifier name) :=
  decidable_of_iff (name ≠ "" ∧ name.toList.all isNameChar = true ∧
      name.toList.head?.any Char.isDigit = false ∧ name ≠ "true" ∧ name ≠ "false") (by
    rw [List.all_eq_true, Option.any_eq_false]
    exact ⟨fun ⟨nonempty, chars, start, ne_true, ne_false⟩ =>
        ⟨nonempty, chars, fun char first => by simpa using start char first, ne_true, ne_false⟩,
      fun ⟨nonempty, chars, start, ne_true, ne_false⟩ =>
        ⟨nonempty, chars, fun char first => by simpa using start char first, ne_true, ne_false⟩⟩)

/-- Digits may stand in names. -/
theorem isNameChar_of_isDigit {char : Char} (digit : char.isDigit = true) :
    isNameChar char = true := by
  simp [isNameChar, Char.isAlphanum, digit]

/-- A text that is not empty has a first character. -/
theorem exists_cons_of_ne {text : String} (nonempty : text ≠ "") :
    ∃ char rest, text.toList = char :: rest := by
  refine List.exists_cons_of_ne_nil fun empty => nonempty ?_
  exact String.toList_injective empty

/-- The text of a number consists of digits. -/
theorem isDigit_of_mem_repr {number : Nat} {char : Char} (inside : char ∈ number.repr.toList) :
    char.isDigit = true := by
  rw [Nat.toList_repr] at inside
  exact Nat.isDigit_of_mem_toDigits (by decide) (by decide) inside

/-- A number can be put behind a name. -/
theorem IsIdentifier.append_repr {stem : String} (identifier : IsIdentifier stem) (number : Nat) :
    IsIdentifier (stem ++ number.repr) := by
  obtain ⟨char, rest, chars⟩ := exists_cons_of_ne identifier.nonempty
  -- There is a digit in the name, so it is neither empty nor one of the two words.
  have digit : ∃ char ∈ (stem ++ number.repr).toList, char.isDigit = true := by
    obtain ⟨first, more, digits⟩ := List.exists_cons_of_ne_nil (Nat.toDigits_ne_nil (n := number))
    have inside : first ∈ number.repr.toList := by
      rw [Nat.toList_repr, digits]
      exact List.mem_cons_self
    rw [String.toList_append]
    exact ⟨first, List.mem_append_right _ inside, isDigit_of_mem_repr inside⟩
  have ne {word : String} (noDigit : ∀ char ∈ word.toList, char.isDigit = false) :
      stem ++ number.repr ≠ word := by
    rintro rfl
    obtain ⟨first, inside, isDigit⟩ := digit
    simp [noDigit first inside] at isDigit
  refine ⟨ne (forall_mem_of_all (by decide)), ?_, ?_, ne (forall_mem_of_all (by decide)),
    ne (forall_mem_of_all (by decide))⟩
  · intro char inside
    rw [String.toList_append] at inside
    rcases List.mem_append.mp inside with inStem | inNumber
    · exact identifier.chars char inStem
    · exact isNameChar_of_isDigit (isDigit_of_mem_repr inNumber)
  · have start := identifier.start
    rw [chars] at start
    rw [String.toList_append, chars]
    exact start

/-! ## Reading from the left -/

variable {α : Type} {marks closers rest otherRest : List Char} {legible : α → Prop} {text : α → String}
  {value : α}

/-- The text is at its end or goes on with one of the marks. -/
def Continues (marks rest : List Char) : Prop := ∀ char ∈ rest.head?, char ∈ marks

/-- The end of the text ends a word. -/
theorem Continues.nil : Continues marks [] := by simp [Continues]

/-- A mark ends a word. -/
theorem Continues.mark {char : Char} (mark : char ∈ marks) : Continues marks (char :: rest) := by
  simpa [Continues] using mark

/-- More marks end no fewer words. -/
theorem Continues.mono {more : List Char} (continues : Continues marks rest)
    (subset : marks ⊆ more) : Continues more rest :=
  fun char first => subset (continues char first)

/-- The text of the value can be read off: no other legible value has a text that begins in the same
way, if both go on with a mark or not at all. -/
def Reads (marks : List Char) (legible : α → Prop) (text : α → String) (value : α) : Prop :=
  ∀ {other : α}, legible other → ∀ {rest otherRest : List Char}, Continues marks rest →
    Continues marks otherRest → (text value).toList ++ rest = (text other).toList ++ otherRest →
    value = other ∧ rest = otherRest

/-- What can be read back from its text is told by its text. -/
theorem Reads.injective (reads : Reads marks legible text value) {other : α}
    (otherLegible : legible other) (same : text value = text other) : value = other :=
  (reads otherLegible .nil .nil (by rw [same])).1

/-- A word ends where no letter follows. -/
theorem word_unique {isLetter : Char → Bool} {word other : List Char}
    (letters : ∀ char ∈ word, isLetter char = true) (ends : ∀ char ∈ rest.head?, isLetter char = false)
    (otherLetters : ∀ char ∈ other, isLetter char = true)
    (otherEnds : ∀ char ∈ otherRest.head?, isLetter char = false)
    (same : word ++ rest = other ++ otherRest) : word = other ∧ rest = otherRest := by
  have none {text : List Char} (ends : ∀ char ∈ text.head?, isLetter char = false) :
      text.takeWhile isLetter = [] := by
    cases text with
    | nil => rfl
    | cons char text => simp [ends char rfl]
  have words := congrArg (List.takeWhile isLetter) same
  rw [List.takeWhile_append_of_pos letters, List.takeWhile_append_of_pos otherLetters, none ends,
    none otherEnds, List.append_nil, List.append_nil] at words
  rw [words] at same
  exact ⟨words, List.append_cancel_left same⟩

/-! ## Lists -/

private theorem toList_separated_cons (separator item : String) (items : List String) :
    (separated separator (item :: items)).toList =
      item.toList ++ items.flatMap fun next => separator.toList ++ next.toList := by
  induction items generalizing item with
  | nil => simp [separated]
  | cons next items ih => simp [separated, ih, String.toList_append]

/-- The text begins with a character that is not one of the marks. -/
def Opens (marks : List Char) (text : String) : Prop :=
  ∃ char rest, text.toList = char :: rest ∧ char ∉ marks

section Separated

variable (comma : ',' ∈ marks) (subset : closers ⊆ marks) (closed : ',' ∉ closers)

include comma subset closed in
/-- Further items can be read off up to the end of the list. -/
theorem further_reads {values : List α} (reads : ∀ value ∈ values, Reads marks legible text value) :
    ∀ {others : List α}, (∀ other ∈ others, legible other) → ∀ {rest otherRest : List Char},
      Continues closers rest → Continues closers otherRest →
      (values.flatMap fun next => ", ".toList ++ (text next).toList) ++ rest =
        (others.flatMap fun next => ", ".toList ++ (text next).toList) ++ otherRest →
      values = others ∧ rest = otherRest := by
  have noComma {items : List Char} (continues : Continues closers (',' :: items)) : False :=
    closed (continues ',' rfl)
  have goesOn {items : List α} {rest : List Char} (continues : Continues closers rest) :
      Continues marks ((items.flatMap fun next => ", ".toList ++ (text next).toList) ++ rest) := by
    cases items with
    | nil => exact continues.mono subset
    | cons item items => exact .mark comma
  induction values with
  | nil =>
      intro others _ rest otherRest continues _ same
      cases others with
      | nil => exact ⟨rfl, same⟩
      | cons other others =>
          obtain rfl : rest = _ := same
          exact (noComma continues).elim
  | cons value values ih =>
      intro others otherLegible rest otherRest continues otherContinues same
      cases others with
      | nil =>
          obtain rfl : _ = otherRest := same
          exact (noComma otherContinues).elim
      | cons other others =>
          obtain ⟨headReads, tailReads⟩ := List.forall_mem_cons.mp reads
          obtain ⟨headLegible, tailLegible⟩ := List.forall_mem_cons.mp otherLegible
          rw [List.flatMap_cons, List.flatMap_cons, List.append_assoc, List.append_assoc,
            List.append_assoc, List.append_assoc] at same
          obtain ⟨rfl, tails⟩ := headReads headLegible (goesOn continues) (goesOn otherContinues)
            (List.append_cancel_left same)
          obtain ⟨rfl, rests⟩ := ih tailReads tailLegible continues otherContinues tails
          exact ⟨rfl, rests⟩

include comma subset closed in
/-- A list can be read off if its items can. -/
theorem separated_reads (opens : ∀ value, legible value → Opens closers (text value))
    {values others : List α} (valuesLegible : ∀ value ∈ values, legible value)
    (reads : ∀ value ∈ values, Reads marks legible text value)
    (othersLegible : ∀ other ∈ others, legible other) (continues : Continues closers rest)
    (otherContinues : Continues closers otherRest)
    (same : (separated ", " (values.map text)).toList ++ rest =
      (separated ", " (others.map text)).toList ++ otherRest) :
    values = others ∧ rest = otherRest := by
  have noItem {value : α} {items rest : List Char} (isLegible : legible value)
      (continues : Continues closers rest) (same : rest = (text value).toList ++ items) : False := by
    obtain ⟨char, chars, begins, noMark⟩ := opens value isLegible
    rw [begins] at same
    exact noMark (continues char (by rw [same]; rfl))
  cases values with
  | nil =>
      cases others with
      | nil => exact ⟨rfl, same⟩
      | cons other others =>
          rw [List.map_cons, toList_separated_cons, List.append_assoc] at same
          exact (noItem (othersLegible other List.mem_cons_self) continues same).elim
  | cons value values =>
      cases others with
      | nil =>
          rw [List.map_cons, toList_separated_cons, List.append_assoc] at same
          exact (noItem (valuesLegible value List.mem_cons_self) otherContinues same.symm).elim
      | cons other others =>
          -- With a comma before the first items as well, both lists consist of further items.
          apply further_reads comma subset closed reads othersLegible continues otherContinues
          rw [List.map_cons, List.map_cons, toList_separated_cons, toList_separated_cons,
            List.flatMap_map, List.flatMap_map] at same
          rw [List.flatMap_cons, List.flatMap_cons, List.append_assoc, List.append_assoc,
            List.append_assoc, List.append_assoc, ← List.append_assoc (text value).toList,
            ← List.append_assoc (text other).toList, same]

end Separated

end Text

end CircuitWidths
