/-!
# Bindings of names

A finite map from names to values as a list of entries, the newest first.  Binding a name again
hides the entry before it, so the last value given to a name is the one that is found.
-/

namespace CircuitWidths

/-- Names and their values, the newest entry first. -/
structure Bindings (α : Type) where
  entries : List (String × α)

namespace Bindings

variable {α β : Type}

/-- No name is bound. -/
def empty : Bindings α := ⟨[]⟩

/-- Binds `name` to `value`, hiding what `name` was bound to before. -/
def insert (bindings : Bindings α) (name : String) (value : α) : Bindings α :=
  ⟨(name, value) :: bindings.entries⟩

/-- The value that `name` was bound to last. -/
def get? (bindings : Bindings α) (name : String) : Option α :=
  bindings.entries.lookup name

/-- Binds each pair in order, so of two pairs with the same name the later one counts. -/
def insertAll (bindings : Bindings α) (pairs : List (String × α)) : Bindings α :=
  pairs.foldl (fun known pair => known.insert pair.1 pair.2) bindings

/-- The bindings made by the pairs, in order. -/
def ofList (pairs : List (String × α)) : Bindings α :=
  empty.insertAll pairs

/-- Applies an effectful function to every bound value. -/
def mapM {m : Type → Type} [Monad m] (f : α → m β) (bindings : Bindings α) :
    m (Bindings β) := do
  let entries ← bindings.entries.mapM fun entry => do
    let value ← f entry.2
    pure (entry.1, value)
  pure ⟨entries⟩

@[simp] theorem get?_empty (name : String) : (empty : Bindings α).get? name = none := rfl

theorem get?_insert (bindings : Bindings α) (name other : String) (value : α) :
    (bindings.insert name value).get? other =
      if other = name then some value else bindings.get? other := by
  by_cases same : other = name
  · simp [insert, get?, same]
  · have differs : (other == name) = false := by simpa using same
    simp [insert, get?, List.lookup_cons, same, differs]

end Bindings

end CircuitWidths
