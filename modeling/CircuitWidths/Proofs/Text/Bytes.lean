import CircuitWidths.Text.Bytes
import Mathlib.Data.List.Basic
import Mathlib.Data.Nat.Basic

/-!
# The bytes of a text

Offsets into a text count bytes of its UTF-8 encoding.  A text that is put together from pieces can
be cut again where the pieces meet, and these places are character boundaries.  An ASCII character
is encoded as one byte, which no other character has in its encoding.
-/

namespace CircuitWidths

namespace Text

/-- The bytes that encode the characters. -/
def bytes (chars : List Char) : List UInt8 := chars.flatMap String.utf8EncodeChar

@[simp] theorem bytes_nil : bytes [] = [] := rfl

@[simp] theorem bytes_cons (char : Char) (rest : List Char) :
    bytes (char :: rest) = String.utf8EncodeChar char ++ bytes rest := rfl

@[simp] theorem bytes_append (front back : List Char) :
    bytes (front ++ back) = bytes front ++ bytes back := List.flatMap_append

/-- The bytes of the characters of a text are its encoding. -/
theorem bytes_toList (text : String) : bytes text.toList = text.toUTF8.data.toList := by
  have encoded : text.toUTF8 = (bytes text.toList).toByteArray := String.utf8Encode_toList.symm
  rw [encoded, List.toList_data_toByteArray]

@[simp] theorem length_bytes (chars : List Char) : (bytes chars).length = byteLength chars := by
  induction chars with
  | nil => rfl
  | cons char rest ih =>
      rw [bytes_cons, List.length_append, String.length_utf8EncodeChar, ih, byteLength]

@[simp] theorem byteLength_append (front back : List Char) :
    byteLength (front ++ back) = byteLength front + byteLength back := by
  rw [← length_bytes, bytes_append, List.length_append, length_bytes, length_bytes]

/-! ## Cutting -/

private theorem dropBytes?_cons (char : Char) (rest : List Char) (count : Nat) :
    dropBytes? (char.utf8Size + count) (char :: rest) = dropBytes? count rest := by
  obtain ⟨more, total⟩ : ∃ more, char.utf8Size + count = more + 1 :=
    Nat.exists_eq_add_one.mpr (Nat.add_pos_left char.utf8Size_pos count)
  have fits : char.utf8Size ≤ more + 1 := by omega
  have left : more + 1 - char.utf8Size = count := by omega
  rw [total, dropBytes?, if_pos fits, left]

private theorem takeBytes?_cons (char : Char) (rest : List Char) (count : Nat) :
    takeBytes? (char.utf8Size + count) (char :: rest) =
      (takeBytes? count rest).map (char :: ·) := by
  obtain ⟨more, total⟩ : ∃ more, char.utf8Size + count = more + 1 :=
    Nat.exists_eq_add_one.mpr (Nat.add_pos_left char.utf8Size_pos count)
  have fits : char.utf8Size ≤ more + 1 := by omega
  have left : more + 1 - char.utf8Size = count := by omega
  rw [total, takeBytes?, if_pos fits, left]

private theorem dropBytes?_append (before after : List Char) :
    dropBytes? (byteLength before) (before ++ after) = some after := by
  induction before with
  | nil => rw [byteLength, List.nil_append, dropBytes?]
  | cons char rest ih => rw [byteLength, List.cons_append, dropBytes?_cons, ih]

private theorem takeBytes?_append (piece after : List Char) :
    takeBytes? (byteLength piece) (piece ++ after) = some piece := by
  induction piece with
  | nil => rw [byteLength, takeBytes?]
  | cons char rest ih =>
      rw [byteLength, List.cons_append, takeBytes?_cons, ih, Option.map_some]

/-- A piece of a text is found between the byte offsets of its ends. -/
theorem slice?_append (before piece after : List Char) :
    slice? (before ++ piece ++ after) (byteLength before) (byteLength (before ++ piece)) =
      some piece := by
  have ordered : byteLength before ≤ byteLength (before ++ piece) := by simp
  have length : byteLength (before ++ piece) - byteLength before = byteLength piece := by simp
  rw [slice?, if_pos ordered, List.append_assoc, dropBytes?_append, Option.bind_some, length,
    takeBytes?_append]

private theorem eq_nil_of_byteLength {chars : List Char} (empty : byteLength chars = 0) : chars =
    [] := by
  cases chars with
  | nil => rfl
  | cons char rest =>
      have size := char.utf8Size_pos
      rw [byteLength] at empty
      omega

/-- Two places where a text can be cut have a piece of text between them. -/
theorem exists_slice {chars before after upto behind : List Char} (first : chars = before ++ after)
    (second : chars = upto ++ behind) (ordered : byteLength before ≤ byteLength upto) :
    ∃ piece, slice? chars (byteLength before) (byteLength upto) = some piece := by
  rcases List.append_eq_append_iff.mp (first.symm.trans second) with
    ⟨piece, rfl, _⟩ | ⟨surplus, rfl, _⟩
  · exact ⟨piece, by rw [second, slice?_append]⟩
  · rw [byteLength_append] at ordered
    obtain rfl : surplus = [] := eq_nil_of_byteLength (by omega)
    have nothing := slice?_append upto [] behind
    rw [List.append_nil, ← second] at nothing
    rw [List.append_nil]
    exact ⟨[], nothing⟩

/-- The bytes of a piece of a text are found between the offsets of its ends. -/
theorem extract_append (before piece after : List Char) :
    (bytes (before ++ piece ++ after)).extract (byteLength before) (byteLength (before ++ piece)) =
      bytes piece := by
  rw [List.extract, bytes_append, bytes_append, byteLength_append, Nat.add_sub_cancel_left,
    List.append_assoc, ← length_bytes before, List.drop_left, ← length_bytes piece, List.take_left]

/-- Bytes behind a piece of text are those of the rest. -/
theorem getElem?_bytes_append (before after : List Char) (index : Nat) :
    (bytes (before ++ after))[byteLength before + index]? = (bytes after)[index]? := by
  rw [bytes_append, ← length_bytes, List.getElem?_append_right (Nat.le_add_right _ _),
    Nat.add_sub_cancel_left]

/-- The place where two pieces of a text meet is a character boundary. -/
theorem isValid_append {text : String} {before after : List Char}
    (parts : text.toList = before ++ after) :
    String.Pos.Raw.IsValid text ⟨byteLength before⟩ := by
  refine String.Pos.Raw.isValid_iff_exists_append.mpr
    ⟨String.ofList before, String.ofList after, ?_, ?_⟩
  · rw [← String.ofList_append, ← parts, String.ofList_toList]
  · rw [String.rawEndPos, String.utf8ByteSize, String.toByteArray_ofList, List.utf8Encode,
      List.size_toByteArray, ← bytes, length_bytes]

/-! ## ASCII characters -/

/-- A character of seven bits is encoded as one byte. -/
theorem encode_of_ascii {char : Char} (ascii : char.val ≤ 127) :
    String.utf8EncodeChar char = [char.toUInt8] :=
  String.utf8EncodeChar_eq_singleton (Char.utf8Size_eq_one_iff.mpr ascii)

private theorem lt_of_mem_encode {char : Char} {byte : UInt8} (wide : ¬ char.val ≤ 127)
    (inside : byte ∈ String.utf8EncodeChar char) : 127 < byte.toNat := by
  have large : ¬ char.val.toNat ≤ 127 := wide
  simp only [String.utf8EncodeChar, large, if_false] at inside
  -- The characters of two, three and four bytes.
  split_ifs at inside <;>
  · simp only [List.mem_cons, List.not_mem_nil, or_false] at inside
    rcases inside with rfl | rfl | rfl | rfl <;> rw [UInt8.toNat_ofNat'] <;> omega

/-- The byte of an ASCII character stands for nothing but this character. -/
theorem mem_encode_iff {ascii char : Char} (isAscii : ascii.val ≤ 127) :
    ascii.toUInt8 ∈ String.utf8EncodeChar char ↔ char = ascii := by
  have small : ascii.val.toNat ≤ 127 := isAscii
  have byte : ascii.toUInt8.toNat = ascii.val.toNat := by
    rw [Char.toUInt8, UInt32.toNat_toUInt8, Nat.mod_eq_of_lt (by omega)]
  constructor
  · intro inside
    by_cases charAscii : char.val ≤ 127
    · have charSmall : char.val.toNat ≤ 127 := charAscii
      rw [encode_of_ascii charAscii] at inside
      have same := congrArg UInt8.toNat (List.mem_singleton.mp inside)
      rw [byte, Char.toUInt8, UInt32.toNat_toUInt8, Nat.mod_eq_of_lt (by omega)] at same
      exact Char.ext (UInt32.toNat_inj.mp same.symm)
    · have large := lt_of_mem_encode charAscii inside
      omega
  · intro same
    rw [same, encode_of_ascii isAscii]
    exact List.mem_singleton.mpr rfl

/-- A byte of seven bits stands for its character only. -/
theorem mem_bytes_iff {ascii : Char} (isAscii : ascii.val ≤ 127) (chars : List Char) :
    ascii.toUInt8 ∈ bytes chars ↔ ascii ∈ chars := by
  simp only [bytes, List.mem_flatMap, mem_encode_iff isAscii, exists_eq_right]

end Text

end CircuitWidths
