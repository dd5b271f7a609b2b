import CircuitWidths.Proofs.Text.Bytes
import CircuitWidths.Source.Files
import Mathlib.Data.Finset.Dedup
import Mathlib.Data.Nat.Count

/-!
# Lines and columns of bytes

The lines of a text are found from its characters, but they can be told from its bytes alone: the
line of a byte is the number of line terminators that end at or before it, and its column is the
distance from the start of that line (`File.position_counts_terminators`).
-/

namespace CircuitWidths

namespace Source

open Text

/-! ## Terminators -/

def lineFeed : UInt8 := '\n'.toUInt8

def carriageReturn : UInt8 := '\r'.toUInt8

/-- The bytes from one offset to another are a line terminator.  A carriage return with a line feed
after it is one terminator, and neither of the two is one of its own. -/
inductive IsTerminator (bytes : List UInt8) : Nat → Nat → Prop
  | feed {start : Nat} (here : bytes[start]? = some lineFeed)
      (alone : start = 0 ∨ bytes[start - 1]? ≠ some carriageReturn) :
      IsTerminator bytes start (start + 1)
  | both {start : Nat} (here : bytes[start]? = some carriageReturn)
      (next : bytes[start + 1]? = some lineFeed) : IsTerminator bytes start (start + 2)
  | back {start : Nat} (here : bytes[start]? = some carriageReturn)
      (alone : bytes[start + 1]? ≠ some lineFeed) : IsTerminator bytes start (start + 1)

/-- A line terminator ends at the offset. -/
def TerminatorEnds (bytes : List UInt8) (stop : Nat) : Prop :=
  ∃ start, IsTerminator bytes start stop

section

variable {bytes : List UInt8} {last : Nat}

/-- No terminator ends before the first byte. -/
theorem not_terminatorEnds_zero : ¬ TerminatorEnds bytes 0 := by
  intro ends
  obtain ⟨start, terminator⟩ := ends
  cases terminator

/-- The last byte of a terminator and the one after it tell that it ends. -/
theorem terminatorEnds_succ_iff :
    TerminatorEnds bytes (last + 1) ↔ bytes[last]? = some lineFeed ∨
      (bytes[last]? = some carriageReturn ∧ bytes[last + 1]? ≠ some lineFeed) := by
  constructor
  · intro ends
    obtain ⟨start, terminator⟩ := ends
    cases terminator with
    | feed here _ => exact .inl here
    | both _ next => exact .inl next
    | back here alone => exact .inr ⟨here, alone⟩
  · intro closing
    rcases closing with feed | ⟨back, alone⟩
    · cases last with
      | zero => exact ⟨0, .feed feed (.inl rfl)⟩
      | succ previous =>
          by_cases paired : bytes[previous]? = some carriageReturn
          · exact ⟨previous, .both paired feed⟩
          · exact ⟨previous + 1, .feed feed (.inr paired)⟩
    · exact ⟨last, .back back alone⟩

instance (bytes : List UInt8) : DecidablePred (TerminatorEnds bytes)
  | 0 => isFalse not_terminatorEnds_zero
  | _ + 1 => decidable_of_iff _ terminatorEnds_succ_iff.symm

end

variable {chars rest : List Char} {char : Char} {offset last : Nat}

private theorem encode_lineFeed : String.utf8EncodeChar '\n' = [lineFeed] :=
  encode_of_ascii (by decide)

private theorem encode_carriageReturn : String.utf8EncodeChar '\r' = [carriageReturn] :=
  encode_of_ascii (by decide)

private theorem lineFeed_mem_encode_iff : lineFeed ∈ String.utf8EncodeChar char ↔ char = '\n' :=
  mem_encode_iff (by decide)

private theorem carriageReturn_mem_encode_iff :
    carriageReturn ∈ String.utf8EncodeChar char ↔ char = '\r' :=
  mem_encode_iff (by decide)

/-- A text begins with the byte of a line feed only if it begins with a line feed. -/
theorem getElem?_bytes_zero_iff (chars : List Char) :
    (Text.bytes chars)[0]? = some lineFeed ↔ chars.head? = some '\n' := by
  cases chars with
  | nil => simp
  | cons char rest =>
      have first : (Text.bytes (char :: rest))[0]? = (String.utf8EncodeChar char)[0]? := by
        rw [bytes_cons, List.getElem?_append_left]
        rw [String.length_utf8EncodeChar]
        exact char.utf8Size_pos
      rw [first, List.head?_cons, Option.some.injEq]
      constructor
      · intro found
        exact lineFeed_mem_encode_iff.mp (List.mem_of_getElem? found)
      · intro same
        rw [same, encode_lineFeed]
        rfl

namespace Lines

/-! ## The starts of lines -/

private theorem lt_of_mem_laterStarts {start : Nat} (inside : start ∈ laterStarts offset chars) :
    offset < start := by
  induction chars generalizing offset with
  | nil => cases inside
  | cons char rest ih =>
      have size := char.utf8Size_pos
      rw [laterStarts] at inside
      split at inside
      · rcases List.mem_cons.mp inside with same | later
        · omega
        · have := ih later
          omega
      · have := ih inside
        omega

private theorem laterStarts_increasing (chars : List Char) (offset : Nat) :
    (laterStarts offset chars).Pairwise (· < ·) := by
  induction chars generalizing offset with
  | nil => exact .nil
  | cons char rest ih =>
      rw [laterStarts]
      split
      · exact .cons (fun _ => lt_of_mem_laterStarts) (ih _)
      · exact ih _

private theorem starts_increasing (chars : List Char) : (starts chars).Pairwise (· < ·) :=
  .cons (fun _ => lt_of_mem_laterStarts) (laterStarts_increasing chars 0)

/-- Of the bytes of a character only the last one ends a line, if the character does. -/
theorem terminatorEnds_within (within : last < char.utf8Size) :
    TerminatorEnds (Text.bytes (char :: rest)) (last + 1) ↔
      last + 1 = char.utf8Size ∧ endsLine char rest = true := by
  have here : (Text.bytes (char :: rest))[last]? = (String.utf8EncodeChar char)[last]? := by
    rw [bytes_cons, List.getElem?_append_left]
    rwa [String.length_utf8EncodeChar]
  rw [terminatorEnds_succ_iff, here]
  by_cases isFeed : char = '\n'
  · subst isFeed
    obtain rfl : last = 0 := Nat.lt_one_iff.mp within
    simp [encode_lineFeed, endsLine, Char.utf8Size]
  by_cases isReturn : char = '\r'
  · subst isReturn
    obtain rfl : last = 0 := Nat.lt_one_iff.mp within
    have next : (Text.bytes ('\r' :: rest))[0 + 1]? = (Text.bytes rest)[0]? := by
      rw [bytes_cons, encode_carriageReturn]
      rfl
    have closes : endsLine '\r' rest = true ↔ rest.head? ≠ some '\n' := by simp [endsLine]
    rw [encode_carriageReturn, next, ne_eq, getElem?_bytes_zero_iff, closes]
    simp [show carriageReturn ≠ lineFeed by decide, Char.utf8Size]
  · have noFeed : (String.utf8EncodeChar char)[last]? ≠ some lineFeed := fun found =>
      isFeed (lineFeed_mem_encode_iff.mp (List.mem_of_getElem? found))
    have noReturn : (String.utf8EncodeChar char)[last]? ≠ some carriageReturn := fun found =>
      isReturn (carriageReturn_mem_encode_iff.mp (List.mem_of_getElem? found))
    simp [noFeed, noReturn, endsLine, isFeed, isReturn]

private theorem terminatorEnds_behind (last : Nat) :
    TerminatorEnds (Text.bytes (char :: rest)) (char.utf8Size + last + 1) ↔
      TerminatorEnds (Text.bytes rest) (last + 1) := by
  have skip (index : Nat) :
      (Text.bytes (char :: rest))[char.utf8Size + index]? = (Text.bytes rest)[index]? := by
    rw [bytes_cons, ← String.length_utf8EncodeChar,
      List.getElem?_append_right (Nat.le_add_right _ _), Nat.add_sub_cancel_left]
  rw [terminatorEnds_succ_iff, terminatorEnds_succ_iff, skip, Nat.add_assoc, skip]

private theorem mem_laterStarts_iff :
    offset + last + 1 ∈ laterStarts offset chars ↔
      TerminatorEnds (Text.bytes chars) (last + 1) := by
  induction chars generalizing offset last with
  | nil => simp [laterStarts, terminatorEnds_succ_iff]
  | cons char rest ih =>
      have step : offset + last + 1 ∈ laterStarts offset (char :: rest) ↔
          (last + 1 = char.utf8Size ∧ endsLine char rest = true) ∨
            offset + last + 1 ∈ laterStarts (offset + char.utf8Size) rest := by
        have first : offset + last + 1 = offset + char.utf8Size ↔ last + 1 = char.utf8Size := by
          omega
        rw [laterStarts]
        split
        next ends => rw [List.mem_cons, first, and_iff_left ends]
        next continues => rw [or_iff_right fun both => continues both.2]
      rw [step]
      by_cases within : last < char.utf8Size
      · have later : offset + last + 1 ∉ laterStarts (offset + char.utf8Size) rest := by
          intro inside
          have := lt_of_mem_laterStarts inside
          omega
        rw [terminatorEnds_within within, or_iff_left later]
      · obtain ⟨behind, rfl⟩ := Nat.exists_eq_add_of_le (Nat.le_of_not_lt within)
        have outside :
            ¬ (char.utf8Size + behind + 1 = char.utf8Size ∧ endsLine char rest = true) := by omega
        rw [or_iff_right outside, terminatorEnds_behind, ← ih, ← Nat.add_assoc]

/-- Lines start behind terminators. -/
theorem terminatorEnds_iff {stop : Nat} :
    TerminatorEnds (Text.bytes chars) stop ↔ stop ∈ laterStarts 0 chars := by
  cases stop with
  | zero =>
      have outside : 0 ∉ laterStarts 0 chars := fun inside =>
        Nat.lt_irrefl 0 (lt_of_mem_laterStarts inside)
      exact iff_of_false not_terminatorEnds_zero outside
  | succ last => rw [← mem_laterStarts_iff, Nat.zero_add]

/-! ## The line of a byte -/

private theorem takeWhile_eq_filter {offsets : List Nat} (increasing : offsets.Pairwise (· < ·))
    (byte : Nat) : offsets.takeWhile (· ≤ byte) = offsets.filter (· ≤ byte) := by
  induction offsets with
  | nil => rfl
  | cons first later ih =>
      obtain ⟨least, laterIncreasing⟩ := List.pairwise_cons.mp increasing
      by_cases reached : first ≤ byte
      · rw [List.takeWhile_cons_of_pos (by simpa using reached),
          List.filter_cons_of_pos (by simpa using reached), ih laterIncreasing]
      · have none : ∀ start ∈ first :: later, ¬ start ≤ byte := by
          intro start inside
          rcases List.mem_cons.mp inside with rfl | behind
          · exact reached
          · have := least start behind
            omega
        rw [List.takeWhile_cons_of_neg (by simpa using reached)]
        exact (List.filter_eq_nil_iff.mpr (by simpa using none)).symm

/-- The line of a byte is the number of terminators that end at or before it. -/
theorem lineOf_eq_count (chars : List Char) (byte : Nat) :
    lineOf chars byte = Nat.count (TerminatorEnds (Text.bytes chars)) (byte + 1) := by
  have increasing := laterStarts_increasing chars 0
  have nodup : ((laterStarts 0 chars).filter (· ≤ byte)).Nodup :=
    (increasing.imp Nat.ne_of_lt).filter _
  rw [lineOf, takeWhile_eq_filter increasing, ← List.toFinset_card_of_nodup nodup,
    Nat.count_eq_card_filter_range]
  congr 1
  ext stop
  simp only [List.mem_toFinset, List.mem_filter, decide_eq_true_eq, Finset.mem_filter,
    Finset.mem_range, Nat.lt_succ_iff, terminatorEnds_iff]
  exact and_comm

/-- Later bytes are not on earlier lines. -/
theorem lineOf_mono (chars : List Char) {byte later : Nat} (le : byte ≤ later) :
    lineOf chars byte ≤ lineOf chars later := by
  rw [lineOf_eq_count, lineOf_eq_count]
  exact Nat.count_monotone _ (Nat.succ_le_succ le)

private theorem lt_length_takeWhile_iff {offsets : List Nat} (increasing : offsets.Pairwise (· < ·))
    {index start byte : Nat} (found : offsets[index]? = some start) :
    index < (offsets.takeWhile (· ≤ byte)).length ↔ start ≤ byte := by
  induction offsets generalizing index with
  | nil => cases found
  | cons first later ih =>
      obtain ⟨least, laterIncreasing⟩ := List.pairwise_cons.mp increasing
      by_cases reached : first ≤ byte
      · rw [List.takeWhile_cons_of_pos (by simpa using reached), List.length_cons]
        cases index with
        | zero =>
            obtain rfl := Option.some.inj found
            exact iff_of_true (Nat.succ_pos _) reached
        | succ index => rw [Nat.succ_lt_succ_iff, ih laterIncreasing found]
      · rw [List.takeWhile_cons_of_neg (by simpa using reached)]
        have behind : first ≤ start := by
          rcases List.mem_cons.mp (List.mem_of_getElem? found) with same | inside
          · exact same.ge
          · exact (least start inside).le
        exact iff_of_false (Nat.not_lt_zero index) (by omega)

/-- The line of a byte is the last one that starts at or before it. -/
theorem le_lineOf_iff {number start byte : Nat} (found : (starts chars)[number]? = some start) :
    number ≤ lineOf chars byte ↔ start ≤ byte := by
  cases number with
  | zero =>
      obtain rfl := Option.some.inj found
      exact iff_of_true (Nat.zero_le _) (Nat.zero_le _)
  | succ later => exact lt_length_takeWhile_iff (laterStarts_increasing chars 0) found

/-- Every byte is on one of the lines that are counted. -/
theorem lineOf_lt_count (chars : List Char) (byte : Nat) : lineOf chars byte < count chars := by
  rw [lineOf, count, starts, List.length_cons, Nat.lt_succ_iff]
  exact (List.takeWhile_prefix _).length_le

/-- Lines that there are, and only these, have a start. -/
theorem start_eq_ok_iff {number start : Nat} :
    Lines.start chars number = .ok start ↔ (starts chars)[number]? = some start := by
  rw [Lines.start]
  cases (starts chars)[number]? <;> simp

/-- The column of a byte is its distance from the start of its line. -/
theorem start_add_column (chars : List Char) (byte : Nat) :
    ∃ start, Lines.start chars (lineOf chars byte) = .ok start ∧
      start + (position chars byte).column = byte := by
  have found := List.getElem?_eq_getElem (lineOf_lt_count chars byte)
  have reached := (le_lineOf_iff found).mp (le_refl (lineOf chars byte))
  refine ⟨_, start_eq_ok_iff.mpr found, ?_⟩
  rw [position, found, Option.getD_some, Nat.add_sub_cancel' reached]

end Lines

namespace File

/-- The bytes of the text. -/
def bytes (file : File) : List UInt8 := file.text.toUTF8.data.toList

/-- The bytes of a file are the encoding of its characters. -/
theorem bytes_eq (file : File) : file.bytes = Text.bytes file.chars :=
  (bytes_toList file.text).symm

/-- **Positions count terminators.**  The line of a byte, which may lie behind the text, is the
number of line terminators that end at or before it.  It is the last one that starts at or before
the byte, which is what searching the starts finds since they increase, and the byte lies behind
this start by the column.  So the lines of bytes are in order, and different bytes have different
positions. -/
theorem position_counts_terminators (file : File) :
    (Lines.starts file.chars).Pairwise (· < ·) ∧
    (∀ byte, (file.position byte).byte = byte ∧
      (file.position byte).line = Nat.count (TerminatorEnds file.bytes) (byte + 1) ∧
      (∃ start, file.lineStart (file.position byte).line = .ok start ∧
        start + (file.position byte).column = byte) ∧
      ∀ number start, file.lineStart number = .ok start →
        (number ≤ (file.position byte).line ↔ start ≤ byte)) ∧
    Monotone (fun byte => (file.position byte).line) ∧
    Function.Injective fun byte => ((file.position byte).line, (file.position byte).column) := by
  have counted (byte : Nat) :
      (file.position byte).line = Nat.count (TerminatorEnds file.bytes) (byte + 1) := by
    rw [bytes_eq]
    exact Lines.lineOf_eq_count file.chars byte
  have starts (byte : Nat) : ∃ start, file.lineStart (file.position byte).line = .ok start ∧
      start + (file.position byte).column = byte :=
    Lines.start_add_column file.chars byte
  refine ⟨Lines.starts_increasing file.chars, fun byte => ⟨rfl, counted byte, starts byte, ?_⟩,
    ?_, ?_⟩
  · intro number start found
    exact Lines.le_lineOf_iff (Lines.start_eq_ok_iff.mp found)
  · exact fun byte later => Lines.lineOf_mono file.chars
  · intro byte other same
    obtain ⟨line, column⟩ := Prod.mk.inj same
    obtain ⟨start, found, total⟩ := starts byte
    obtain ⟨otherStart, otherFound, otherTotal⟩ := starts other
    rw [← line, found] at otherFound
    obtain rfl := Except.ok.inj otherFound
    rw [← total, ← otherTotal, column]

-- A byte between a carriage return and its line feed is on the line that they terminate.
example : (List.range 6).map (fun byte => (File.position ⟨"a.net", "x\r\n\ry"⟩ byte).line) =
    [0, 0, 0, 1, 2, 2] := by decide

end File

end Source

end CircuitWidths
