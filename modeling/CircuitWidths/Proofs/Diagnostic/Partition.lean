import CircuitWidths.Proofs.Diagnostic.Grouping
import Mathlib.Data.List.Basic
import Mathlib.Data.List.Range

/-!
# Groups hold all remarks

Placing remarks one after another loses none of them and repeats none.  Each remark is in one group,
the groups are in the order in which they were begun, and the span of a group is the hull of the
spans of its remarks (`groupAll_partitions`).
-/

namespace CircuitWidths

open Source

/-- The smallest span that holds all of these spans, which are of its file. -/
structure Source.Span.IsHull (hull : Span) (spans : List Span) : Prop where
  holds : ∀ span ∈ spans,
    span.file = hull.file ∧ hull.start ≤ span.start ∧ span.stop ≤ hull.stop
  starts : ∃ span ∈ spans, span.start = hull.start
  stops : ∃ span ∈ spans, span.stop = hull.stop

namespace Diagnostic

variable {sources : Files} {settings : Settings} {limit number : Nat} {remark : Remark}
  {remarks : List Remark} {group : Group} {groups next : List Group}
  {placed before after : List (Remark × Nat)} {later : Remark × Nat}

private theorem Group.Fits.isHull (fits : group.Fits sources) :
    group.span.IsHull (group.remarks.map (·.span)) where
  holds := List.forall_mem_map.mpr fits.holds
  starts := by simpa using fits.starts
  stops := by simpa using fits.stops

/-- The remarks that were put into the group with a number, in order. -/
def members (placed : List (Remark × Nat)) (number : Nat) : List Remark :=
  (placed.filter (·.2 = number)).map (·.1)

/-- The numbers of the groups into which remarks were put. -/
def numbers (placed : List (Remark × Nat)) : List Nat := placed.map (·.2)

/-- Grouping the remarks puts each into the group with the number beside it. -/
structure Arranges (sources : Files) (settings : Settings) (placed : List (Remark × Nat))
    (groups : List Group) : Prop where
  run : groupAll sources settings (placed.map (·.1)) = .ok groups
  number_lt : ∀ number ∈ numbers placed, number < groups.length
  remarks : ∀ number group, groups[number]? = some group → group.remarks = members placed number
  fits : ∀ group ∈ groups, group.Fits sources
  perm : (groups.flatMap Group.remarks).Perm (placed.map (·.1))
  /-- A newer group was begun behind the first remark of an older one. -/
  ordered : ∀ older newer, older < newer → newer < groups.length →
    (numbers placed).idxOf older < (numbers placed).idxOf newer
  /-- A remark that was put into a group with other remarks was near to all of them together. -/
  near : ∀ before later after, placed = before ++ later :: after → later.2 ∈ numbers before →
    ∃ distance hull, settings.merge = some distance ∧
      hull.IsHull ((members before later.2).map (·.span)) ∧
      sources.Near (2 * settings.context + distance) later.1.span hull

/-! ## Remarks that may share groups -/

namespace Joins

private theorem perm (joins : Joins sources limit remark groups number next) :
    (next.flatMap Group.remarks).Perm (groups.flatMap Group.remarks ++ [remark]) := by
  induction joins with
  | begins => exact .refl _
  | @takes group grown rest _ grows =>
      rw [List.flatMap_cons, List.flatMap_cons, grows.remarks, List.append_assoc, List.append_assoc]
      exact List.perm_append_comm.append_left _
  | passes _ _ ih =>
      rw [List.flatMap_cons, List.flatMap_cons, List.append_assoc]
      exact ih.append_left _

/-- The remark is put into one of the groups, or it begins the next one. -/
theorem number_le (joins : Joins sources limit remark groups number next) :
    (number < groups.length ∧ next.length = groups.length) ∨
      (number = groups.length ∧ next.length = groups.length + 1) := by
  induction joins with
  | begins => exact .inr ⟨rfl, rfl⟩
  | takes _ _ => exact .inl ⟨Nat.succ_pos _, rfl⟩
  | passes _ _ ih =>
      simp only [List.length_cons]
      omega

end Joins

namespace History

private theorem perm (history : History sources settings limit placed groups) :
    (groups.flatMap Group.remarks).Perm (placed.map (·.1)) := by
  induction history with
  | nil => exact .refl _
  | snoc _ _ _ joins ih =>
      rw [List.map_append]
      exact joins.perm.trans (ih.append_right _)

private theorem numbers_lt (history : History sources settings limit placed groups)
    (inside : number ∈ numbers placed) : number < groups.length := by
  obtain ⟨place, member, rfl⟩ := List.mem_map.mp inside
  exact history.number_lt member

/-- Each group was begun by a remark. -/
theorem mem_numbers (history : History sources settings limit placed groups)
    (begun : number < groups.length) : number ∈ numbers placed := by
  have remarks := history.remarks (List.getElem?_eq_getElem begun)
  have first : groups[number].primary ∈ groups[number].remarks := List.mem_cons_self
  rw [remarks] at first
  obtain ⟨place, kept, _⟩ := List.mem_map.mp first
  obtain ⟨member, same⟩ := List.mem_filter.mp kept
  exact List.mem_map.mpr ⟨place, member, by simpa using same⟩

private theorem ordered (history : History sources settings limit placed groups) {older newer : Nat}
    (before : older < newer) (begun : newer < groups.length) :
    (numbers placed).idxOf older < (numbers placed).idxOf newer := by
  induction history with
  | nil => exact absurd begun (Nat.not_lt_zero newer)
  | @snoc placed groups next remark number history _ _ joins ih =>
      have split : numbers (placed ++ [(remark, number)]) = numbers placed ++ [number] :=
        List.map_append
      rw [split]
      have olderBegun : older < groups.length := by
        obtain ⟨_, length⟩ | ⟨_, length⟩ := joins.number_le <;> omega
      have olderInside := history.mem_numbers olderBegun
      rw [List.idxOf_append_of_mem olderInside]
      by_cases newerBegun : newer < groups.length
      · rw [List.idxOf_append_of_mem (history.mem_numbers newerBegun)]
        exact ih newerBegun
      · -- The newer group is begun by this remark, which is behind all others.
        have newerOutside : newer ∉ numbers placed := fun inside =>
          newerBegun (history.numbers_lt inside)
        rw [List.idxOf_append_of_notMem newerOutside]
        exact (List.idxOf_lt_length_of_mem olderInside).trans_le (Nat.le_add_right _ _)

private theorem arranges {distance : Nat} (merges : settings.merge = some distance)
    (history : History sources settings (2 * settings.context + distance) placed groups) :
    Arranges sources settings placed groups where
  run := history.groupAll
  number_lt _ := history.numbers_lt
  remarks _ _ := history.remarks
  fits group inside := by
    obtain ⟨number, found⟩ := List.mem_iff_getElem?.mp inside
    exact history.fits found
  perm := history.perm
  ordered _ _ := history.ordered
  near := by
    intro before later after parts inside
    obtain ⟨begun, next, earlier, joins⟩ := history.split parts
    have found := List.getElem?_eq_getElem (earlier.numbers_lt inside)
    refine ⟨distance, _, merges, ?_, joins.near found⟩
    rw [members, ← earlier.remarks found]
    exact (earlier.fits found).isHull

end History

/-! ## Remarks with groups of their own -/

private theorem groupAll_singles (apart : settings.merge = none)
    (has : ∀ remark ∈ remarks, sources.Has remark.span) :
    groupAll sources settings remarks = .ok (remarks.map .single) := by
  induction remarks using List.reverseRecOn with
  | nil => rfl
  | append_singleton remarks remark ih =>
      have before := ih fun other inside => has other (List.mem_append_left _ inside)
      obtain ⟨extent, seen, _⟩ := (has remark (by simp)).extent
      have placing : place sources settings (remarks.map .single) remark =
          .ok (remarks.map .single ++ [.single remark]) := by
        rw [place, seen, apart]
        rfl
      rw [groupAll] at before
      rw [groupAll, List.foldlM_append, before, List.map_append]
      show List.foldlM (place sources settings) _ [remark] = _
      rw [List.foldlM_cons, placing]
      rfl

private theorem numbers_zipIdx (remarks : List Remark) :
    numbers remarks.zipIdx = List.range remarks.length := by
  rw [numbers, List.range_eq_range']
  exact List.zipIdx_map_snd 0 remarks

private theorem members_zipIdx (found : remarks[number]? = some remark) :
    members remarks.zipIdx number = [remark] := by
  induction remarks using List.reverseRecOn with
  | nil => cases found
  | append_singleton remarks last ih =>
      have split : members (remarks ++ [last]).zipIdx number =
          members remarks.zipIdx number ++ members [(last, remarks.length)] number := by
        rw [List.zipIdx_append, members, List.filter_append, List.map_append, Nat.zero_add]
        rfl
      rw [split]
      by_cases before : number < remarks.length
      · rw [List.getElem?_append_left before] at found
        have behind : members [(last, remarks.length)] number = [] := by
          simp [members, before.ne']
        rw [ih found, behind, List.append_nil]
      · have inside := (List.getElem?_eq_some_iff.mp found).1
        rw [List.length_append, List.length_singleton] at inside
        obtain rfl : number = remarks.length := by omega
        obtain rfl : last = remark := by simpa using found
        have none : members remarks.zipIdx remarks.length = [] := by
          rw [members, List.map_eq_nil_iff, List.filter_eq_nil_iff]
          intro place member
          simpa using (List.snd_lt_of_mem_zipIdx member).ne
        rw [none, List.nil_append]
        simp [members]

private theorem arranges_singles (apart : settings.merge = none)
    (has : ∀ remark ∈ remarks, sources.Has remark.span) :
    Arranges sources settings remarks.zipIdx (remarks.map .single) := by
  have all : remarks.zipIdx.map (·.1) = remarks := List.zipIdx_map_fst 0 remarks
  have nodup : (numbers remarks.zipIdx).Nodup := by
    rw [numbers_zipIdx]
    exact List.nodup_range
  refine ⟨?_, ?_, ?_, ?_, ?_, ?_, ?_⟩
  · rw [all]
    exact groupAll_singles apart has
  · intro number inside
    rw [numbers_zipIdx, List.mem_range] at inside
    rwa [List.length_map]
  · intro number group found
    rw [List.getElem?_map] at found
    obtain ⟨remark, here, rfl⟩ := Option.map_eq_some_iff.mp found
    exact (members_zipIdx here).symm
  · intro group inside
    obtain ⟨remark, member, rfl⟩ := List.mem_map.mp inside
    exact Group.single_fits (has remark member)
  · rw [all, List.flatMap_map]
    exact .of_eq (List.flatMap_singleton' remarks)
  · intro older newer before begun
    have position {number : Nat} (inside : number < remarks.length) :
        (List.range remarks.length).idxOf number = number := by
      have found := List.nodup_range.idxOf_getElem number (by rwa [List.length_range])
      rwa [List.getElem_range] at found
    rw [List.length_map] at begun
    rw [numbers_zipIdx, position begun, position (before.trans begun)]
    exact before
  · intro before later after parts inside
    rw [parts, numbers, List.map_append, List.map_cons] at nodup
    have distinct := (List.nodup_append.mp nodup).2.2
    exact absurd rfl (distinct later.2 inside later.2 List.mem_cons_self)

/-! ## All remarks -/

/-- Remarks about places that exist can be arranged in groups. -/
theorem exists_arrangement
    (counted : ∀ distance, settings.merge = some distance →
      2 * settings.context + distance ≤ largestCount)
    (remarks : List Remark) (has : ∀ remark ∈ remarks, sources.Has remark.span) :
    ∃ placed groups, placed.map (·.1) = remarks ∧ Arranges sources settings placed groups := by
  cases merges : settings.merge with
  | none => exact ⟨_, _, List.zipIdx_map_fst 0 remarks, arranges_singles merges has⟩
  | some distance =>
      obtain ⟨placed, groups, all, history⟩ :=
        exists_history merges (counted distance merges) remarks has
      exact ⟨placed, groups, all, history.arranges merges⟩

/-- **Grouping partitions the remarks.**  Remarks about places that exist are grouped.  Each of them
is put into one group, which keeps its remarks in order, and all groups together have the remarks
they were made of.  A group begun later has a later first remark.  The remarks of a group are about
one file, and its span is their hull.  A remark that joined others was within the limit of their
hull; without a limit none does. -/
theorem groupAll_partitions (sources : Files) (settings : Settings)
    (counted : ∀ distance, settings.merge = some distance →
      2 * settings.context + distance ≤ largestCount)
    (remarks : List Remark) (has : ∀ remark ∈ remarks, sources.Has remark.span) :
    ∃ (groups : List Group) (placed : List (Remark × Nat)),
      groupAll sources settings remarks = .ok groups ∧
      placed.map (·.1) = remarks ∧ (∀ number ∈ numbers placed, number < groups.length) ∧
      (groups.flatMap Group.remarks).Perm remarks ∧
      (∀ older newer, older < newer → newer < groups.length →
        (numbers placed).idxOf older < (numbers placed).idxOf newer) ∧
      (∀ number group, groups[number]? = some group →
        group.remarks = members placed number ∧
        group.span.IsHull (group.remarks.map (·.span))) ∧
      ∀ before later after, placed = before ++ later :: after → later.2 ∈ numbers before →
        ∃ distance hull, settings.merge = some distance ∧
          hull.IsHull ((members before later.2).map (·.span)) ∧
          sources.Near (2 * settings.context + distance) later.1.span hull := by
  obtain ⟨placed, groups, rfl, arranges⟩ := exists_arrangement counted remarks has
  refine ⟨groups, placed, arranges.run, rfl, arranges.number_lt, arranges.perm, arranges.ordered,
    ?_, arranges.near⟩
  intro number group found
  exact ⟨arranges.remarks number group found,
    (arranges.fits group (List.mem_of_getElem? found)).isHull⟩

/-- Four remarks about two files make three groups.  The third remark joins the first one, on the
next line, and the last one is too far from both. -/
theorem groupAll_partitions_two_files :
    let sources : Files := ⟨[⟨"a.net", "one\r\ntwo\n\n\nfive"⟩, ⟨"b.net", "other"⟩]⟩
    let settings : Settings := { context := 0, merge := some 1, styled := false }
    let second : Remark := ⟨.error, ⟨0, 5, 8⟩, "second"⟩
    let other : Remark := ⟨.info, ⟨1, 0, 5⟩, "other"⟩
    let first : Remark := ⟨.info, ⟨0, 0, 3⟩, "first"⟩
    let fifth : Remark := ⟨.info, ⟨0, 11, 15⟩, "fifth"⟩
    let remarks := [second, other, first, fifth]
    (∀ remark ∈ remarks, sources.Has remark.span) ∧
      groupAll sources settings remarks = .ok [⟨⟨0, 0, 8⟩, second, [first]⟩,
        ⟨⟨1, 0, 5⟩, other, []⟩, ⟨⟨0, 11, 15⟩, fifth, []⟩] ∧
      ∃ (groups : List Group) (placed : List (Remark × Nat)),
        groupAll sources settings remarks = .ok groups ∧ placed.map (·.1) = remarks ∧
        (groups.flatMap Group.remarks).Perm remarks ∧
        ∀ number group, groups[number]? = some group →
          group.remarks = members placed number ∧
          group.span.IsHull (group.remarks.map (·.span)) := by
  intro sources settings second other first fifth remarks
  have has : ∀ remark ∈ remarks, sources.Has remark.span := by
    intro remark inside
    have bounds : ∀ remark ∈ remarks, remark.span.file < sources.files.length ∧
        remark.span.start ≤ remark.span.stop := by decide +kernel
    exact ⟨(bounds remark inside).1, (bounds remark inside).2⟩
  have counted : ∀ distance, settings.merge = some distance →
      2 * settings.context + distance ≤ largestCount := by
    intro distance merges
    obtain rfl := Option.some.inj merges
    decide
  obtain ⟨groups, placed, run, all, _, perm, _, hulls, _⟩ :=
    groupAll_partitions sources settings counted remarks has
  exact ⟨has, by decide +kernel, groups, placed, run, all, perm, hulls⟩

end Diagnostic

end CircuitWidths
