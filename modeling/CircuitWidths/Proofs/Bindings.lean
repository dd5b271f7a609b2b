import CircuitWidths.Bindings
import Mathlib.Data.List.Forall2

/-!
# Entries of bindings

What is found under a name is an entry, entries come from the pairs that were bound, and a
function may be applied to all bound values.
-/

namespace CircuitWidths

namespace Bindings

variable {α β : Type} {bindings : Bindings α} {pairs : List (String × α)} {name : String}
  {value : α}

/-- Applies a function to every bound value. -/
def map (f : α → β) (bindings : Bindings α) : Bindings β :=
  ⟨bindings.entries.map fun entry => (entry.1, f entry.2)⟩

@[simp] theorem get?_map (f : α → β) (bindings : Bindings α) (name : String) :
    (bindings.map f).get? name = (bindings.get? name).map f := by
  obtain ⟨entries⟩ := bindings
  induction entries with
  | nil => rfl
  | cons entry entries ih =>
      have before := get?_insert ⟨entries⟩ entry.1 name entry.2
      have after := get?_insert (map f ⟨entries⟩) entry.1 name (f entry.2)
      by_cases same : name = entry.1
      · rw [if_pos same] at before after
        exact after.trans (congrArg (Option.map f) before).symm
      · rw [if_neg same] at before after
        exact after.trans (ih.trans (congrArg (Option.map f) before).symm)

/-- Inserted pairs are mapped like everything that was bound before. -/
theorem map_insertAll (f : α → β) (pairs : List (String × α)) : ∀ bindings : Bindings α,
    (bindings.insertAll pairs).map f =
      (bindings.map f).insertAll (pairs.map fun pair => (pair.1, f pair.2)) := by
  induction pairs with
  | nil => exact fun _ => rfl
  | cons pair pairs ih => exact fun bindings => ih (bindings.insert pair.1 pair.2)

/-- Mapping the values of a list of pairs is the same before and after they are bound. -/
theorem map_ofList_zip (f : α → β) (names : List String) (items : List α) :
    (ofList (names.zip items)).map f = ofList (names.zip (items.map f)) := by
  rw [ofList, map_insertAll, List.zip_map_right]
  rfl

/-- Under a name related values are bound where the entries are related one by one. -/
theorem get?_related {relation : α → β → Prop} {others : Bindings β}
    (related : List.Forall₂ (fun entry other => entry.1 = other.1 ∧ relation entry.2 other.2)
      bindings.entries others.entries) (name : String) :
    Option.Rel relation (bindings.get? name) (others.get? name) := by
  obtain ⟨entries⟩ := bindings
  obtain ⟨otherEntries⟩ := others
  dsimp only at related
  induction related with
  | nil => exact .none
  | @cons entry other entries otherEntries head _ ih =>
      show Option.Rel relation ((insert ⟨entries⟩ entry.1 entry.2).get? name)
        ((insert ⟨otherEntries⟩ other.1 other.2).get? name)
      rw [get?_insert, get?_insert, ← head.1]
      by_cases same : name = entry.1
      · rw [if_pos same, if_pos same]
        exact .some head.2
      · rw [if_neg same, if_neg same]
        exact ih

/-- What is found under a name is one of the entries. -/
theorem mem_of_get? (bound : bindings.get? name = some value) :
    (name, value) ∈ bindings.entries := by
  obtain ⟨newer, older, entries, _⟩ := List.lookup_eq_some_iff.mp bound
  rw [entries]
  simp

/-- Entries after an insertion are inserted pairs or were there before. -/
theorem mem_insertAll {entry : String × α} (inside : entry ∈ (bindings.insertAll pairs).entries) :
    entry ∈ pairs ∨ entry ∈ bindings.entries := by
  induction pairs generalizing bindings with
  | nil => exact .inr inside
  | cons pair pairs ih =>
      rcases ih inside with later | earlier
      · exact .inl (List.mem_cons_of_mem _ later)
      · rcases List.mem_cons.mp earlier with rfl | older
        · exact .inl List.mem_cons_self
        · exact .inr older

/-- What is found under a name was listed with it. -/
theorem mem_of_get?_ofList (bound : (ofList pairs).get? name = some value) :
    (name, value) ∈ pairs := by
  rcases mem_insertAll (mem_of_get? bound) with listed | none
  · exact listed
  · cases none

private theorem get?_insertAll_isSome
    (inside : name ∈ pairs.map Prod.fst ∨ (bindings.get? name).isSome) :
    ((bindings.insertAll pairs).get? name).isSome := by
  induction pairs generalizing bindings with
  | nil =>
      rcases inside with listed | bound
      · cases listed
      · exact bound
  | cons pair pairs ih =>
      apply ih
      by_cases same : name = pair.1
      · exact .inr (by rw [get?_insert, if_pos same]; rfl)
      · rcases inside with listed | bound
        · exact .inl (by simpa [same] using listed)
        · exact .inr (by rw [get?_insert, if_neg same]; exact bound)

/-- If there is a value for each name, then every name is bound. -/
theorem get?_ofList_zip_isSome {names : List String} {items : List α}
    (length : items.length = names.length) (listed : name ∈ names) :
    ((ofList (names.zip items)).get? name).isSome := by
  apply get?_insertAll_isSome
  rw [List.map_fst_zip (Nat.le_of_eq length.symm)]
  exact .inl listed

end Bindings

end CircuitWidths
