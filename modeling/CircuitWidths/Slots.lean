/-!
# Owned slots

A table that only grows, whose values are reached by keys.  Every table has an owner number and
every key remembers the owner of the table that made it, so a key used with another table is
refused instead of reaching an unrelated value.
-/

namespace CircuitWidths

/-- Values in the order in which they were added, and the number of the table's owner. -/
structure Slots (α : Type) where
  owner : Nat
  values : Array α

namespace Slots

/-- The position of a value in the table that belongs to `owner`. -/
structure Key where
  owner : Nat
  index : Nat
  deriving DecidableEq, Repr

/-- The text of a key, which names the kind of thing that it points to. -/
def Key.render (key : Key) (kind : String) : String :=
  "<" ++ kind ++ " " ++ key.index.repr ++ ">"

variable {α : Type}

/-- The table of `owner` without values. -/
def empty (owner : Nat) : Slots α := ⟨owner, #[]⟩

/-- The number of values. -/
def size (slots : Slots α) : Nat := slots.values.size

/-- Adds a value and gives the key to it. -/
def push (slots : Slots α) (value : α) : Key × Slots α :=
  (⟨slots.owner, slots.size⟩, { slots with values := slots.values.push value })

/-- The value of a key that this table made. -/
def get? (slots : Slots α) (key : Key) : Option α :=
  if key.owner = slots.owner then slots.values[key.index]? else none

/-- Replaces the value of a key that this table made. -/
def set? (slots : Slots α) (key : Key) (value : α) : Option (Slots α) :=
  if owned : key.owner = slots.owner ∧ key.index < slots.values.size then
    some { slots with values := slots.values.set key.index value owned.2 }
  else
    none

/-- Adding a value changes what is found at the new key only. -/
theorem get?_push (slots : Slots α) (value : α) (key : Key) :
    (slots.push value).2.get? key =
      if key = (slots.push value).1 then some value else slots.get? key := by
  obtain ⟨owner, index⟩ := key
  by_cases owned : owner = slots.owner
  · by_cases newest : index = slots.values.size
    · simp [push, get?, size, owned, newest]
    · simp [push, get?, size, owned, newest, Array.getElem?_push]
  · simp [push, get?, size, owned]

/-- Replacing a value changes what is found at its key only. -/
theorem get?_of_set? {slots next : Slots α} {key : Key} {value : α}
    (replaced : slots.set? key value = some next) (other : Key) :
    next.get? other = if other = key then some value else slots.get? other := by
  unfold set? at replaced
  split at replaced
  · rename_i owned
    obtain ⟨keyOwner, keyIndex⟩ := key
    obtain ⟨owner, index⟩ := other
    obtain ⟨sameOwner, inside⟩ := owned
    cases replaced
    simp only at sameOwner inside
    by_cases otherOwned : owner = slots.owner
    · by_cases sameIndex : keyIndex = index
      · subst sameIndex
        simp [get?, otherOwned, sameOwner, inside]
      · simp [get?, otherOwned, sameOwner, sameIndex, Ne.symm sameIndex]
    · simp [get?, otherOwned, sameOwner]
  · cases replaced

/-- Replacing a value keeps the owner and the number of values. -/
theorem size_of_set? {slots next : Slots α} {key : Key} {value : α}
    (replaced : slots.set? key value = some next) :
    next.owner = slots.owner ∧ next.size = slots.size := by
  unfold set? at replaced
  split at replaced
  · cases replaced
    simp [size]
  · cases replaced

/-- The keys that can be read are those of the owner up to the number of values. -/
theorem get?_isSome_iff (slots : Slots α) (key : Key) :
    (slots.get? key).isSome = true ↔ key.owner = slots.owner ∧ key.index < slots.size := by
  by_cases owned : key.owner = slots.owner
  · simp [get?, size, owned]
  · simp [get?, owned]

/-- A key can be written exactly if it can be read. -/
theorem set?_isSome_iff (slots : Slots α) (key : Key) (value : α) :
    (slots.set? key value).isSome = (slots.get? key).isSome := by
  by_cases owned : key.owner = slots.owner
  · by_cases inside : key.index < slots.values.size
    · simp [set?, get?, owned, inside]
    · simp [set?, get?, owned, inside]
  · simp [set?, get?, owned]

end Slots

end CircuitWidths
