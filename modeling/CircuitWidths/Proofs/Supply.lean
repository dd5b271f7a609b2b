import Mathlib.Data.Nat.Digits.Defs

/-!
# Values for numbered names

Type variables and generated widths are numbered in the order in which they are made.  A list of
values for those that will be made can be chosen in advance: an assignment supplies the list from
a number on if it gives the names from that number on the values of the list, in order.
-/

namespace CircuitWidths

variable {α κ : Type}

/-- From `start` on, the assignment has the values of the list, in order. -/
def Supplies (assigned : Nat → α) : Nat → List α → Prop
  | _, [] => True
  | start, value :: rest => assigned start = value ∧ Supplies assigned (start + 1) rest

/-- Gives the names from `start` on the values of the list, and leaves all others as they are. -/
def supply [DecidableEq κ] (name : Nat → κ) (assigned : κ → α) : Nat → List α → κ → α
  | _, [], other => assigned other
  | start, value :: rest, other =>
    if other = name start then value else supply name assigned (start + 1) rest other

@[simp] theorem supplies_append {assigned : Nat → α} {start : Nat} {first second : List α} :
    Supplies assigned start (first ++ second) ↔
      Supplies assigned start first ∧ Supplies assigned (start + first.length) second := by
  induction first generalizing start with
  | nil => simp [Supplies]
  | cons value rest ih =>
      rw [List.cons_append, Supplies, Supplies, ih, and_assoc, List.length_cons,
        Nat.add_assoc start, Nat.add_comm 1]

/-- Counting may begin at `start`. -/
theorem supplies_shift {assigned : Nat → α} {start : Nat} {values : List α} : ∀ {offset : Nat},
    Supplies (fun index => assigned (start + index)) offset values ↔
      Supplies assigned (start + offset) values := by
  induction values with
  | nil => exact Iff.rfl
  | cons value rest ih => exact and_congr_right fun _ => ih

/-- Only values from the start on matter. -/
theorem Supplies.congr {assigned other : Nat → α} {start : Nat} {values : List α}
    (supplies : Supplies assigned start values)
    (same : ∀ index, start ≤ index → other index = assigned index) :
    Supplies other start values := by
  induction values generalizing start with
  | nil => exact trivial
  | cons value rest ih =>
      exact ⟨(same start (Nat.le_refl _)).trans supplies.1,
        ih supplies.2 fun index above => same index (by omega)⟩

section Supply

variable [DecidableEq κ] {name : Nat → κ} {assigned : κ → α}

/-- Names that are not supplied keep their values. -/
theorem supply_of_ne {values : List α} {other : κ} : ∀ {start : Nat},
    (∀ index, start ≤ index → index < start + values.length → other ≠ name index) →
      supply name assigned start values other = assigned other := by
  induction values with
  | nil => exact fun _ => rfl
  | cons value rest ih =>
      intro start outside
      rw [supply, if_neg (outside start (Nat.le_refl _) (by simp))]
      apply ih
      intro index above below
      rw [List.length_cons] at outside
      exact outside index (by omega) (by omega)

/-- Names that differ from each other can be supplied with any values. -/
theorem supplies_supply (injective : Function.Injective name) {values : List α} :
    ∀ {start : Nat}, Supplies (fun index => supply name assigned start values (name index))
      start values := by
  induction values with
  | nil => exact trivial
  | cons value rest ih =>
      intro start
      refine ⟨if_pos rfl, ih.congr fun index above => ?_⟩
      rw [supply, if_neg]
      intro same
      have := injective same
      omega

end Supply

/-- Numbers are written differently. -/
theorem repr_injective : Function.Injective Nat.repr := by
  intro first second same
  rw [Nat.repr_eq_ofList_toDigits, Nat.repr_eq_ofList_toDigits] at same
  have digits := String.ofList_injective same
  have read := congrArg (fun chars => Nat.ofDigitChars 10 chars 0) digits
  simpa [Nat.ofDigitChars_toDigits] using read

/-- Different numbers give different names. -/
theorem generated_injective (stem : String) :
    Function.Injective fun index : Nat => stem ++ index.repr :=
  fun _ _ same => repr_injective ((String.append_right_inj stem).mp same)

end CircuitWidths
