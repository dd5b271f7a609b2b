import Mathlib.Data.List.Forall2

/-!
# Related lists

Facts about lists whose members are related position by position.
-/

namespace CircuitWidths

variable {α β γ δ : Type}

/-- Two relations between lists, one after the other. -/
theorem forall₂_compose {first : α → β → Prop} {second : β → γ → Prop} {both : α → γ → Prop}
    {starts : List α} {middles : List β} {finishes : List γ}
    (firsts : List.Forall₂ first starts middles) (seconds : List.Forall₂ second middles finishes)
    (compose : ∀ start middle finish, first start middle → second middle finish →
      both start finish) : List.Forall₂ both starts finishes := by
  induction firsts generalizing finishes with
  | nil =>
      cases seconds
      exact .nil
  | cons head _ ih =>
      cases seconds with
      | cons next rest => exact .cons (compose _ _ _ head next) (ih rest)

/-- Functions that agree on related members give the same list. -/
theorem map_eq_map_of_forall₂ {relation : α → β → Prop} {f : α → γ} {g : β → γ}
    {lefts : List α} {rights : List β} (related : List.Forall₂ relation lefts rights)
    (same : ∀ left right, relation left right → f left = g right) :
    lefts.map f = rights.map g := by
  rw [← List.forall₂_eq_eq_eq, List.forall₂_map_left_iff, List.forall₂_map_right_iff]
  exact related.imp same

/-- Pairs of related members are related on both sides. -/
theorem forall₂_zip_zip {first : α → β → Prop} {second : γ → δ → Prop} {lefts : List α}
    {others : List β} {rights : List γ} {otherRights : List δ}
    (firsts : List.Forall₂ first lefts others) (seconds : List.Forall₂ second rights otherRights) :
    List.Forall₂ (fun pair other => first pair.1 other.1 ∧ second pair.2 other.2)
      (lefts.zip rights) (others.zip otherRights) := by
  induction firsts generalizing rights otherRights with
  | nil => exact .nil
  | cons head _ ih =>
      cases seconds with
      | nil => exact .nil
      | cons next rest => exact .cons ⟨head, next⟩ (ih rest)

/-- The relation may be changed where the members of the first list allow it. -/
theorem forall₂_imp_of_mem {first second : α → β → Prop} {lefts : List α} {rights : List β}
    (related : List.Forall₂ first lefts rights)
    (each : ∀ left ∈ lefts, ∀ right, first left right → second left right) :
    List.Forall₂ second lefts rights := by
  have both := (List.forall₂_and_left lefts rights).mpr ⟨each, related⟩
  exact both.imp fun _ right found => found.1 right found.2

/-- Lists that are related to the two sides of a pair of related lists are related themselves. -/
theorem forall₂_square {sides : α → β → Prop} {first : α → γ → Prop} {second : β → δ → Prop}
    {results : γ → δ → Prop} {lefts : List α} {rights : List β} {nexts : List γ} {lasts : List δ}
    (related : List.Forall₂ sides lefts rights) (firsts : List.Forall₂ first lefts nexts)
    (seconds : List.Forall₂ second rights lasts)
    (square : ∀ left ∈ lefts, ∀ right next last, sides left right → first left next →
      second right last → results next last) : List.Forall₂ results nexts lasts := by
  induction related generalizing nexts lasts with
  | nil =>
      cases firsts
      cases seconds
      exact .nil
  | cons side _ ih =>
      obtain ⟨atHead, inTail⟩ := List.forall_mem_cons.mp square
      cases firsts with
      | cons head tail =>
          cases seconds with
          | cons otherHead otherTail =>
              exact .cons (atHead _ _ _ side head otherHead) (ih tail otherTail inTail)

/-- Every member of the first list has a partner in the second. -/
theorem forall₂_exists_mem_right {relation : α → β → Prop} {lefts : List α} {rights : List β}
    (related : List.Forall₂ relation lefts rights) {left : α} (inside : left ∈ lefts) :
    ∃ right ∈ rights, relation left right := by
  induction related with
  | nil => cases inside
  | cons head _ ih =>
      rcases List.mem_cons.mp inside with rfl | inTail
      · exact ⟨_, List.mem_cons_self, head⟩
      · obtain ⟨right, member, found⟩ := ih inTail
        exact ⟨right, List.mem_cons_of_mem _ member, found⟩

/-- Every member of the first list has a partner. -/
theorem forall₂_exists_right {relation : α → β → Prop} {lefts : List α} {rights : List β}
    (related : List.Forall₂ relation lefts rights) {left : α} (inside : left ∈ lefts) :
    ∃ right, relation left right := by
  obtain ⟨right, _, found⟩ := forall₂_exists_mem_right related inside
  exact ⟨right, found⟩

/-- Every member of the second list has a partner. -/
theorem forall₂_exists_left {relation : α → β → Prop} {lefts : List α} {rights : List β}
    (related : List.Forall₂ relation lefts rights) {right : β} (inside : right ∈ rights) :
    ∃ left, relation left right :=
  forall₂_exists_right related.flip inside

/-- If every item has a related value, then going through the items gives values related to them. -/
theorem exists_mapM_ok {ε : Type} {each : α → Except ε β} {relates : α → β → Prop}
    {items : List α} (all : ∀ item ∈ items, ∃ value, each item = .ok value ∧ relates item value) :
    ∃ values, items.mapM each = .ok values ∧ List.Forall₂ relates items values := by
  induction items with
  | nil => exact ⟨[], rfl, .nil⟩
  | cons item rest ih =>
      obtain ⟨here, behind⟩ := List.forall_mem_cons.mp all
      obtain ⟨value, run, related⟩ := here
      obtain ⟨values, runs, others⟩ := ih behind
      refine ⟨value :: values, ?_, .cons related others⟩
      rw [List.mapM_cons, run, runs]
      rfl

end CircuitWidths
