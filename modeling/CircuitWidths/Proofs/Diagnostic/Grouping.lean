import CircuitWidths.Diagnostic.Group
import CircuitWidths.Proofs.Source.Positions
import Mathlib.Data.List.Induction
import Mathlib.Data.Nat.Basic
import Mathlib.Order.MinMax

/-!
# Which remarks share an excerpt

A remark joins the first group near it, and groups are never merged.  So of two remarks near each
other the later one may join an older group that is near it as well (`near_remarks_share_group`).
That does not happen if remarks are added in the order of their lines: then the groups of a file lie
so far apart that a remark is near the newest of them at most (`History.apart`).
-/

namespace CircuitWidths

/-! ## Lines of spans -/

namespace Source

namespace Files

variable {sources : Files} {limit : Nat} {span left right : Span}

/-- The span lies in one of the files, and its ends are in order. -/
structure Has (sources : Files) (span : Span) : Prop where
  file : span.file < sources.files.length
  ordered : span.start ≤ span.stop

/-- The line on which a byte of a file lies. -/
def lineAt (sources : Files) (file byte : Nat) : Nat :=
  match sources.files[file]? with
  | some found => Lines.lineOf found.chars byte
  | none => 0

def firstLine (sources : Files) (span : Span) : Nat := sources.lineAt span.file span.start

def lastLine (sources : Files) (span : Span) : Nat := sources.lineAt span.file span.stop

/-- The spans are in the same file and at most so many lines apart. -/
def Near (sources : Files) (limit : Nat) (left right : Span) : Prop :=
  ∃ first second distance, sources.extent left = .ok first ∧ sources.extent right = .ok second ∧
    first.distance? second = some distance ∧ distance ≤ limit

private theorem lineAt_mono (sources : Files) (file : Nat) {byte later : Nat} (le : byte ≤ later) :
    sources.lineAt file byte ≤ sources.lineAt file later := by
  unfold lineAt
  split
  · exact Lines.lineOf_mono _ le
  · exact le_rfl

private theorem Has.firstLine_le (has : sources.Has span) :
    sources.firstLine span ≤ sources.lastLine span :=
  sources.lineAt_mono span.file has.ordered

/-- A span in a file has an extent, from the line of its start to the line of its end. -/
theorem Has.extent (has : sources.Has span) :
    ∃ extent, sources.extent span = .ok extent ∧ extent.file = span.file ∧
      extent.start.line = sources.firstLine span ∧ extent.stop.line = sources.lastLine span := by
  obtain ⟨file, found⟩ : ∃ file, sources.files[span.file]? = some file :=
    ⟨_, List.getElem?_eq_getElem has.file⟩
  have got : sources.get span.file = .ok file := by rw [get, found]
  refine ⟨file.extent span, ?_, rfl, ?_, ?_⟩
  · rw [Files.extent, got]
    rfl
  · rw [firstLine, lineAt, found]
    rfl
  · rw [lastLine, lineAt, found]
    rfl

/-- Spans are near each other if neither starts too far behind the end of the other. -/
theorem near_iff (leftHas : sources.Has left) (rightHas : sources.Has right) :
    sources.Near limit left right ↔ left.file = right.file ∧
      sources.firstLine left ≤ sources.lastLine right + limit ∧
      sources.firstLine right ≤ sources.lastLine left + limit := by
  have leftOrder := leftHas.firstLine_le
  have rightOrder := rightHas.firstLine_le
  obtain ⟨first, leftSeen, leftFile, leftFirst, leftLast⟩ := leftHas.extent
  obtain ⟨second, rightSeen, rightFile, rightFirst, rightLast⟩ := rightHas.extent
  simp only [Near, leftSeen, rightSeen, Except.ok.injEq, exists_eq_left', exists_and_left]
  rw [Extent.distance?, leftFile, rightFile, leftFirst, leftLast, rightFirst, rightLast]
  by_cases sameFile : left.file = right.file
  · simp only [ne_eq, sameFile, not_true_eq_false, if_false, true_and]
    split_ifs <;> simp only [Option.some.injEq, exists_eq_left'] <;> omega
  · simp [sameFile]

end Files

end Source

namespace Diagnostic

open Source

variable {sources : Files} {settings : Settings} {limit number other : Nat} {remark : Remark}
  {group grown : Group} {groups next : List Group} {placed : List (Remark × Nat)}

/-! ## Groups -/

namespace Group

/-- The span of the group is the smallest one that holds its remarks. -/
structure Fits (sources : Files) (group : Group) : Prop where
  has : sources.Has group.span
  holds : ∀ remark ∈ group.remarks, remark.span.file = group.span.file ∧
    group.span.start ≤ remark.span.start ∧ remark.span.stop ≤ group.span.stop
  starts : ∃ remark ∈ group.remarks, remark.span.start = group.span.start
  stops : ∃ remark ∈ group.remarks, remark.span.stop = group.span.stop

/-- A remark on its own makes a group that fits. -/
theorem single_fits (has : sources.Has remark.span) : (single remark).Fits sources where
  has := has
  holds := by
    intro member inside
    obtain rfl : member = remark := by simpa [single, remarks] using inside
    exact ⟨rfl, le_rfl, le_rfl⟩
  starts := ⟨remark, by simp [single, remarks], rfl⟩
  stops := ⟨remark, by simp [single, remarks], rfl⟩

private theorem Fits.firstLine_le (fits : group.Fits sources) (inside : remark ∈ group.remarks) :
    sources.firstLine group.span ≤ sources.firstLine remark.span := by
  obtain ⟨sameFile, start, _⟩ := fits.holds remark inside
  rw [Files.firstLine, Files.firstLine, sameFile]
  exact sources.lineAt_mono _ start

private theorem Fits.lastLine_le (fits : group.Fits sources) (inside : remark ∈ group.remarks) :
    sources.lastLine remark.span ≤ sources.lastLine group.span := by
  obtain ⟨sameFile, _, stop⟩ := fits.holds remark inside
  rw [Files.lastLine, Files.lastLine, sameFile]
  exact sources.lineAt_mono _ stop

/-- What is near a remark is near its group. -/
theorem Fits.near (fits : group.Fits sources) {member : Remark} (inside : member ∈ group.remarks)
    (memberHas : sources.Has member.span) (has : sources.Has remark.span)
    (near : sources.Near limit member.span remark.span) :
    sources.Near limit remark.span group.span := by
  obtain ⟨sameFile, start, stop⟩ := (Files.near_iff memberHas has).mp near
  refine (Files.near_iff has fits.has).mpr ⟨?_, ?_, ?_⟩
  · exact sameFile.symm.trans (fits.holds member inside).1
  · exact stop.trans (Nat.add_le_add_right (fits.lastLine_le inside) limit)
  · exact (fits.firstLine_le inside).trans start

/-- The group has one more remark of its file, and its span has grown to hold it. -/
structure Grows (group : Group) (remark : Remark) (grown : Group) : Prop where
  sameFile : remark.span.file = group.span.file
  remarks : grown.remarks = group.remarks ++ [remark]
  file : grown.span.file = group.span.file
  start : grown.span.start = min group.span.start remark.span.start
  stop : grown.span.stop = max group.span.stop remark.span.stop

private theorem Fits.add (fits : group.Fits sources)
    (sameFile : remark.span.file = group.span.file) :
    ∃ grown, group.add remark = .ok grown ∧ group.Grows remark grown := by
  have ordered : min group.span.start remark.span.start ≤ max group.span.stop remark.span.stop :=
    (min_le_left _ _).trans (fits.has.ordered.trans (le_max_left _ _))
  have added : group.add remark = .ok
      { group with
        span := ⟨group.span.file, min group.span.start remark.span.start,
          max group.span.stop remark.span.stop⟩
        others := group.others ++ [remark] } := by
    rw [Group.add, Span.join, if_pos sameFile.symm, Span.between, if_pos ordered]
    rfl
  exact ⟨_, added, sameFile, rfl, rfl, rfl, rfl⟩

private theorem Fits.grows (fits : group.Fits sources) (grows : group.Grows remark grown) :
    grown.Fits sources := by
  have mem_iff : ∀ member, member ∈ grown.remarks ↔ member ∈ group.remarks ∨ member = remark := by
    simp [grows.remarks]
  refine ⟨⟨?_, ?_⟩, ?_, ?_, ?_⟩
  · rw [grows.file]
    exact fits.has.file
  · rw [grows.start, grows.stop]
    exact (min_le_left _ _).trans (fits.has.ordered.trans (le_max_left _ _))
  · intro member inside
    rw [grows.file, grows.start, grows.stop]
    rcases (mem_iff member).mp inside with old | rfl
    · obtain ⟨file, start, stop⟩ := fits.holds member old
      exact ⟨file, (min_le_left _ _).trans start, stop.trans (le_max_left _ _)⟩
    · exact ⟨grows.sameFile, min_le_right _ _, le_max_right _ _⟩
  · rw [grows.start]
    obtain ⟨member, old, start⟩ := fits.starts
    rcases min_choice group.span.start remark.span.start with least | least
    · exact ⟨member, (mem_iff member).mpr (.inl old), start.trans least.symm⟩
    · exact ⟨remark, (mem_iff remark).mpr (.inr rfl), least.symm⟩
  · rw [grows.stop]
    obtain ⟨member, old, stop⟩ := fits.stops
    rcases max_choice group.span.stop remark.span.stop with greatest | greatest
    · exact ⟨member, (mem_iff member).mpr (.inl old), stop.trans greatest.symm⟩
    · exact ⟨remark, (mem_iff remark).mpr (.inr rfl), greatest.symm⟩

private theorem Fits.isNear (fits : group.Fits sources) (counted : limit ≤ largestCount)
    {extent : Extent} (seen : sources.extent remark.span = .ok extent) :
    ∃ answer, group.isNear sources limit extent = .ok answer ∧
      (answer = true ↔ sources.Near limit remark.span group.span) := by
  obtain ⟨covered, groupSeen, _⟩ := fits.has.extent
  have near : sources.Near limit remark.span group.span ↔
      ∃ distance, extent.distance? covered = some distance ∧ distance ≤ limit := by
    simp [Files.Near, seen, groupSeen]
  rw [near]
  cases apart : extent.distance? covered with
  | none =>
      have asked : group.isNear sources limit extent = .ok false := by
        simp [Group.isNear, groupSeen, apart, bind, Except.bind]
      exact ⟨false, asked, by simp⟩
  | some distance =>
      have asked : group.isNear sources limit extent = .ok (decide (distance ≤ limit)) := by
        simp [Group.isNear, groupSeen, apart, bind, Except.bind, Source.countable, counted]
      exact ⟨_, asked, by simp⟩

end Group

/-! ## One remark -/

/-- The remark is put into the group with this number: the first one near it, or a new one after all
others. -/
inductive Joins (sources : Files) (limit : Nat) (remark : Remark) :
    List Group → Nat → List Group → Prop
  | begins : Joins sources limit remark [] 0 [.single remark]
  | takes {group grown : Group} {rest : List Group}
      (near : sources.Near limit remark.span group.span) (grows : group.Grows remark grown) :
      Joins sources limit remark (group :: rest) 0 (grown :: rest)
  | passes {group : Group} {rest placed : List Group} {number : Nat}
      (far : ¬ sources.Near limit remark.span group.span)
      (joins : Joins sources limit remark rest number placed) :
      Joins sources limit remark (group :: rest) (number + 1) (group :: placed)

private theorem placeNear_joins (counted : limit ≤ largestCount) (has : sources.Has remark.span)
    {extent : Extent} (seen : sources.extent remark.span = .ok extent)
    (fits : ∀ group ∈ groups, group.Fits sources) :
    ∃ number next, placeNear sources limit extent remark groups = .ok next ∧
      Joins sources limit remark groups number next := by
  induction groups with
  | nil => exact ⟨0, _, rfl, .begins⟩
  | cons group rest ih =>
      obtain ⟨headFits, restFits⟩ := List.forall_mem_cons.mp fits
      obtain ⟨answer, asked, answers⟩ := headFits.isNear counted seen
      rw [placeNear, asked]
      cases answer with
      | true =>
          have near := answers.mp rfl
          obtain ⟨grown, added, grows⟩ := headFits.add ((Files.near_iff has headFits.has).mp near).1
          exact ⟨0, grown :: rest, by rw [added]; rfl, .takes near grows⟩
      | false =>
          obtain ⟨number, next, run, joins⟩ := ih restFits
          have far : ¬ sources.Near limit remark.span group.span := fun near => by
            simpa using answers.mpr near
          exact ⟨number + 1, group :: next, by rw [run]; rfl, .passes far joins⟩

namespace Joins

/-- A remark that joins a group that was there before is near it. -/
theorem near (joins : Joins sources limit remark groups number next)
    (found : groups[number]? = some group) : sources.Near limit remark.span group.span := by
  induction joins with
  | begins => cases found
  | takes near _ =>
      obtain rfl := Option.some.inj found
      exact near
  | passes _ _ ih => exact ih found

private theorem far (joins : Joins sources limit remark groups number next)
    (before : other < number) (found : groups[other]? = some group) :
    ¬ sources.Near limit remark.span group.span := by
  induction joins generalizing other with
  | begins | takes _ _ => exact absurd before (Nat.not_lt_zero other)
  | passes far _ ih =>
      cases other with
      | zero =>
          obtain rfl := Option.some.inj found
          exact far
      | succ other => exact ih (Nat.lt_of_succ_lt_succ before) found

private theorem getElem?_of_ne (joins : Joins sources limit remark groups number next)
    (different : other ≠ number) : next[other]? = groups[other]? := by
  induction joins generalizing other with
  | begins | takes _ _ =>
      cases other with
      | zero => exact absurd rfl different
      | succ other => rfl
  | passes _ _ ih =>
      cases other with
      | zero => rfl
      | succ other => exact ih (fun same => different (congrArg (· + 1) same))

/-- The group that the remark is in afterwards. -/
theorem joined (joins : Joins sources limit remark groups number next) :
    ∃ grown, next[number]? = some grown ∧
      ((number = groups.length ∧ grown = .single remark) ∨
        ∃ group, groups[number]? = some group ∧ group.Grows remark grown) := by
  induction joins with
  | begins => exact ⟨_, rfl, .inl ⟨rfl, rfl⟩⟩
  | takes _ grows => exact ⟨_, rfl, .inr ⟨_, rfl, grows⟩⟩
  | passes _ _ ih =>
      obtain ⟨grown, found, begun | taken⟩ := ih
      · exact ⟨grown, found, .inl ⟨congrArg (· + 1) begun.1, begun.2⟩⟩
      · exact ⟨grown, found, .inr taken⟩

private theorem mem_or_joined (joins : Joins sources limit remark groups number next)
    (found : next[other]? = some group) :
    (other ≠ number ∧ groups[other]? = some group) ∨
      (other = number ∧ ((number = groups.length ∧ group = .single remark) ∨
        ∃ old, groups[number]? = some old ∧ old.Grows remark group)) := by
  by_cases same : other = number
  · obtain ⟨grown, placed, joined⟩ := joins.joined
    obtain rfl : grown = group := by
      rw [same, placed] at found
      exact Option.some.inj found
    exact .inr ⟨same, joined⟩
  · rw [joins.getElem?_of_ne same] at found
    exact .inl ⟨same, found⟩

private theorem number_lt (joins : Joins sources limit remark groups number next) :
    number < next.length := by
  obtain ⟨_, found, _⟩ := joins.joined
  exact (List.getElem?_eq_some_iff.mp found).1

private theorem length_le (joins : Joins sources limit remark groups number next) :
    groups.length ≤ next.length := by
  induction joins with
  | begins => exact Nat.zero_le _
  | takes _ _ => exact le_rfl
  | passes _ _ ih => exact Nat.succ_le_succ ih

end Joins

/-! ## All remarks -/

/-- The remarks were placed one after another, each into the group with the number beside it. -/
inductive History (sources : Files) (settings : Settings) (limit : Nat) :
    List (Remark × Nat) → List Group → Prop
  | nil : History sources settings limit [] []
  | snoc {placed : List (Remark × Nat)} {groups next : List Group} {remark : Remark} {number : Nat}
      (history : History sources settings limit placed groups) (has : sources.Has remark.span)
      (run : place sources settings groups remark = .ok next)
      (joins : Joins sources limit remark groups number next) :
      History sources settings limit (placed ++ [(remark, number)]) next

namespace History

variable {before after : List (Remark × Nat)} {earlier later : Remark × Nat}

/-- Grouping gives the groups of the history. -/
theorem groupAll (history : History sources settings limit placed groups) :
    groupAll sources settings (placed.map (·.1)) = .ok groups := by
  induction history with
  | nil => rfl
  | snoc _ _ run _ ih =>
      rw [Diagnostic.groupAll] at ih
      rw [Diagnostic.groupAll, List.map_append, List.foldlM_append, ih]
      show (List.foldlM (place sources settings) _ [_]) = _
      rw [List.foldlM_cons, run]
      rfl

private theorem has (history : History sources settings limit placed groups)
    (inside : earlier ∈ placed) : sources.Has earlier.1.span := by
  induction history with
  | nil => cases inside
  | snoc _ has _ _ ih =>
      rcases List.mem_append.mp inside with old | new
      · exact ih old
      · rw [List.mem_singleton.mp new]
        exact has

/-- All groups of a history fit. -/
theorem fits (history : History sources settings limit placed groups)
    (found : groups[number]? = some group) : group.Fits sources := by
  induction history generalizing number group with
  | nil => cases found
  | snoc _ has _ joins ih =>
      rcases joins.mem_or_joined found with ⟨_, old⟩ | ⟨_, ⟨_, rfl⟩ | ⟨old, oldFound, grows⟩⟩
      · exact ih old
      · exact Group.single_fits has
      · exact (ih oldFound).grows grows

/-- Remarks are placed in groups that there are. -/
theorem number_lt (history : History sources settings limit placed groups)
    (inside : earlier ∈ placed) : earlier.2 < groups.length := by
  induction history with
  | nil => cases inside
  | snoc _ _ _ joins ih =>
      rcases List.mem_append.mp inside with old | new
      · exact (ih old).trans_le joins.length_le
      · rw [List.mem_singleton.mp new]
        exact joins.number_lt

/-- The remarks of a group are those that were put into it, in order. -/
theorem remarks (history : History sources settings limit placed groups)
    (found : groups[number]? = some group) :
    group.remarks = (placed.filter (·.2 = number)).map (·.1) := by
  induction history generalizing number group with
  | nil => cases found
  | @snoc placed _ _ _ _ history _ _ joins ih =>
      rw [List.filter_append, List.map_append]
      rcases joins.mem_or_joined found with
        ⟨different, old⟩ | ⟨rfl, ⟨new, rfl⟩ | ⟨old, oldFound, grows⟩⟩
      · rw [ih old]
        simp [Ne.symm different]
      · have none : placed.filter (·.2 = number) = [] := by
          refine List.filter_eq_nil_iff.mpr fun place inside => ?_
          have below := history.number_lt inside
          simp only [decide_eq_true_eq]
          omega
        rw [none]
        simp [Group.single, Group.remarks]
      · rw [grows.remarks, ih oldFound]
        simp

private theorem exists_group (history : History sources settings limit placed groups)
    (inside : earlier ∈ placed) :
    ∃ group, groups[earlier.2]? = some group ∧ earlier.1 ∈ group.remarks := by
  have found := List.getElem?_eq_getElem (history.number_lt inside)
  refine ⟨_, found, ?_⟩
  rw [history.remarks found]
  exact List.mem_map.mpr ⟨earlier, List.mem_filter.mpr ⟨inside, by simp⟩, rfl⟩

/-- When a remark was placed, the remarks before it had been grouped. -/
theorem split (history : History sources settings limit placed groups)
    (parts : placed = before ++ later :: after) :
    ∃ begun next, History sources settings limit before begun ∧
      Joins sources limit later.1 begun later.2 next := by
  induction history generalizing after with
  | nil => simp at parts
  | snoc history _ _ joins ih =>
      rcases List.eq_nil_or_concat after with rfl | ⟨front, last, rfl⟩
      · obtain ⟨rfl, same⟩ := List.append_inj' parts rfl
        obtain rfl := List.singleton_inj.mp same
        exact ⟨_, _, history, joins⟩
      · rw [List.concat_eq_append, ← List.cons_append, ← List.append_assoc] at parts
        exact ih (List.append_inj' parts rfl).1

/-- Of two remarks near each other the later one joins the group of the earlier one or an older
group near it. -/
theorem joins_older (history : History sources settings limit before groups)
    (joins : Joins sources limit later.1 groups later.2 next) (has : sources.Has later.1.span)
    (inside : earlier ∈ before) (near : sources.Near limit earlier.1.span later.1.span) :
    later.2 = earlier.2 ∨ (later.2 < earlier.2 ∧
      ∃ older, groups[later.2]? = some older ∧ sources.Near limit later.1.span older.span) := by
  obtain ⟨group, found, member⟩ := history.exists_group inside
  have nearGroup := (history.fits found).near member (history.has inside) has near
  rcases Nat.lt_trichotomy later.2 earlier.2 with older | same | newer
  · have begun : later.2 < groups.length := older.trans (history.number_lt inside)
    exact .inr ⟨older, _, List.getElem?_eq_getElem begun,
      joins.near (List.getElem?_eq_getElem begun)⟩
  · exact .inl same
  · exact (joins.far newer found nearGroup).elim

/-- The first remark of all begins the first group. -/
theorem first_number (history : History sources settings limit (earlier :: after) groups) :
    earlier.2 = 0 := by
  obtain ⟨begun, next, nothing, joins⟩ := history.split (List.nil_append _).symm
  obtain rfl : [] = begun := Except.ok.inj nothing.groupAll
  generalize earlier.2 = number at joins ⊢
  cases joins
  rfl

/-! ### Remarks in the order of their lines -/

/-- If the two remarks are about the same file, the earlier one starts on the same line or above. -/
def InOrder (sources : Files) (earlier later : Remark) : Prop :=
  earlier.span.file = later.span.file →
    sources.firstLine earlier.span ≤ sources.firstLine later.span

/-- A remark that comes in order starts no earlier than the groups of its file. -/
theorem firstLine_le (history : History sources settings limit placed groups)
    (ordered : ∀ earlier ∈ placed, InOrder sources earlier.1 remark)
    (found : groups[number]? = some group) (sameFile : group.span.file = remark.span.file) :
    sources.firstLine group.span ≤ sources.firstLine remark.span := by
  have fits := history.fits found
  obtain ⟨member, inside, start⟩ := fits.starts
  have memberFile := (fits.holds member inside).1
  rw [history.remarks found] at inside
  obtain ⟨earlier, kept, rfl⟩ := List.mem_map.mp inside
  have line := ordered earlier (List.mem_filter.mp kept).1 (memberFile.trans sameFile)
  rwa [Files.firstLine, memberFile, start] at line

/-- Groups of one file that were begun in order lie too far apart to be near the same remark. -/
theorem apart (history : History sources settings limit placed groups)
    (ordered : (placed.map (·.1)).Pairwise (InOrder sources)) {newer : Group}
    (before : number < other) (found : groups[number]? = some group)
    (newerFound : groups[other]? = some newer) (sameFile : group.span.file = newer.span.file) :
    sources.lastLine group.span + limit < sources.firstLine newer.span := by
  induction history generalizing number other group newer with
  | nil => cases found
  | @snoc placed groups next remark joinedNumber history has _ joins ih =>
      rw [List.map_append, List.pairwise_append] at ordered
      obtain ⟨ordered, _, ends⟩ := ordered
      have inOrder : ∀ earlier ∈ placed, InOrder sources earlier.1 remark := fun earlier inside =>
        ends earlier.1 (List.mem_map_of_mem inside) remark (List.mem_singleton.mpr rfl)
      rcases joins.mem_or_joined found with ⟨_, oldFound⟩ | ⟨rfl, ⟨new, _⟩ | ⟨old, oldFound, grows⟩⟩
      · rcases joins.mem_or_joined newerFound with
          ⟨_, newerOld⟩ | ⟨rfl, ⟨_, rfl⟩ | ⟨old, joinedFound, grows⟩⟩
        · exact ih ordered before oldFound newerOld sameFile
        · -- The remark begins a group because it is too far below all the others.
          have far := joins.far before oldFound
          rw [Files.near_iff has (history.fits oldFound).has] at far
          have starts := history.firstLine_le inOrder oldFound sameFile
          have ends := has.firstLine_le
          have below : ¬ sources.firstLine remark.span ≤ sources.lastLine group.span + limit :=
            fun near => far ⟨sameFile.symm, near, by omega⟩
          exact Nat.lt_of_not_le below
        · have gap := ih ordered before oldFound joinedFound (sameFile.trans grows.file)
          have starts := history.firstLine_le inOrder joinedFound grows.sameFile.symm
          rw [Files.firstLine, grows.file, grows.start]
          rcases min_choice old.span.start remark.span.start with least | least
          · rw [least]
            exact gap
          · rw [least, ← grows.sameFile]
            exact gap.trans_le starts
      · obtain ⟨_, newerOld⟩ | ⟨same, _⟩ := joins.mem_or_joined newerFound
        · have inside := (List.getElem?_eq_some_iff.mp newerOld).1
          omega
        · omega
      · obtain ⟨_, newerOld⟩ | ⟨same, _⟩ := joins.mem_or_joined newerFound
        · -- A group that grows is the newest one of its file, since the remark is near it.
          obtain ⟨_, near, _⟩ :=
            (Files.near_iff has (history.fits oldFound).has).mp (joins.near oldFound)
          have newerFile : old.span.file = newer.span.file := grows.file.symm.trans sameFile
          have gap := ih ordered before oldFound newerOld newerFile
          have starts := history.firstLine_le inOrder newerOld
            (newerFile.symm.trans grows.sameFile.symm)
          omega
        · omega

private theorem shares_in_order (history : History sources settings limit before groups)
    (ordered : ((before ++ [later]).map (·.1)).Pairwise (InOrder sources))
    (joins : Joins sources limit later.1 groups later.2 next) (has : sources.Has later.1.span)
    (inside : earlier ∈ before) (near : sources.Near limit earlier.1.span later.1.span) :
    later.2 = earlier.2 := by
  rcases history.joins_older joins has inside near with same | ⟨less, older, olderFound, olderNear⟩
  · exact same
  rw [List.map_append, List.pairwise_append] at ordered
  obtain ⟨ordered, _, ends⟩ := ordered
  obtain ⟨group, found, member⟩ := history.exists_group inside
  have fits := history.fits found
  obtain ⟨sameFile, _, _⟩ := (Files.near_iff (history.has inside) has).mp near
  obtain ⟨olderFile, reaches, _⟩ :=
    (Files.near_iff has (history.fits olderFound).has).mp olderNear
  have groupFile := (fits.holds earlier.1 member).1
  have gap := history.apart ordered less olderFound found
    (olderFile.symm.trans (sameFile.symm.trans groupFile))
  have starts := fits.firstLine_le member
  have line := ends earlier.1 (List.mem_map_of_mem inside) later.1 (by simp) sameFile
  omega

end History

/-- Remarks about places that exist can be grouped. -/
theorem exists_history {distance : Nat} (merges : settings.merge = some distance)
    (counted : 2 * settings.context + distance ≤ largestCount) (remarks : List Remark)
    (has : ∀ remark ∈ remarks, sources.Has remark.span) :
    ∃ placed groups, placed.map (·.1) = remarks ∧
      History sources settings (2 * settings.context + distance) placed groups := by
  induction remarks using List.reverseRecOn with
  | nil => exact ⟨[], [], rfl, .nil⟩
  | append_singleton remarks remark ih =>
      obtain ⟨placed, groups, rfl, history⟩ := ih fun other inside =>
        has other (List.mem_append_left _ inside)
      have remarkHas := has remark (by simp)
      obtain ⟨extent, seen, _⟩ := remarkHas.extent
      obtain ⟨number, next, run, joins⟩ := placeNear_joins counted remarkHas seen
        fun group inside => by
          obtain ⟨number, found⟩ := List.mem_iff_getElem?.mp inside
          exact history.fits found
      have placing : place sources settings groups remark = .ok next := by
        rw [place, seen, merges]
        exact run
      exact ⟨placed ++ [(remark, number)], next, by simp, history.snoc remarkHas placing joins⟩

/-- **Which remarks share a group.**  Remarks about places that exist are grouped, and each group
consists of the remarks that were put into it, in order.  Of two remarks of the same file within the
limit, the later one is in the group of the earlier one, unless an older group was within the limit
of it as well when it was placed, in which case it is in that one.  They always share a group if the
earlier one is the main remark, or if the remarks of each file come in the order of their lines. -/
theorem near_remarks_share_group (sources : Files) (settings : Settings) {distance : Nat}
    (merges : settings.merge = some distance)
    (counted : 2 * settings.context + distance ≤ largestCount) (remarks : List Remark)
    (has : ∀ remark ∈ remarks, sources.Has remark.span) :
    let limit := 2 * settings.context + distance
    ∃ (groups : List Group) (placed : List (Remark × Nat)),
      groupAll sources settings remarks = .ok groups ∧
      placed.map (·.1) = remarks ∧ (∀ place ∈ placed, place.2 < groups.length) ∧
      (∀ number group, groups[number]? = some group →
        group.remarks = (placed.filter (·.2 = number)).map (·.1)) ∧
      ∀ before later after, placed = before ++ later :: after → ∀ earlier ∈ before,
        sources.Near limit earlier.1.span later.1.span →
        (later.2 = earlier.2 ∨ (later.2 < earlier.2 ∧ ∃ begun older,
          groupAll sources settings (before.map (·.1)) = .ok begun ∧
          begun[later.2]? = some older ∧ sources.Near limit later.1.span older.span)) ∧
        (before.head? = some earlier → later.2 = earlier.2) ∧
        (remarks.Pairwise (History.InOrder sources) → later.2 = earlier.2) := by
  intro limit
  obtain ⟨placed, groups, rfl, history⟩ := exists_history merges counted remarks has
  refine ⟨groups, placed, history.groupAll, rfl, fun _ => history.number_lt,
    fun _ _ => history.remarks, ?_⟩
  rintro before later after rfl earlier inside near
  obtain ⟨begun, next, earlierHistory, joins⟩ := history.split rfl
  have laterHas : sources.Has later.1.span := history.has (by simp)
  have joined := earlierHistory.joins_older joins laterHas inside near
  refine ⟨?_, ?_, ?_⟩
  · refine joined.imp_right fun ⟨less, older, found, olderNear⟩ => ?_
    exact ⟨less, begun, older, earlierHistory.groupAll, found, olderNear⟩
  · intro isFirst
    obtain ⟨rest, rfl⟩ := List.head?_eq_some_iff.mp isFirst
    have zero := history.first_number
    omega
  · intro ordered
    refine earlierHistory.shares_in_order ?_ joins laterHas inside near
    rw [List.append_cons, List.map_append] at ordered
    exact (List.pairwise_append.mp ordered).1

/-- Of three remarks on the lines one, three and two, the last is near both others and joins the
first one.  So the second and the third are not shown together, although they are on neighbouring
lines. -/
theorem neighbours_apart :
    let sources : Files := ⟨[⟨"a.net", "one\ntwo\nthree\n"⟩]⟩
    let settings : Settings := { context := 0, merge := some 1, styled := false }
    let first : Remark := ⟨.error, ⟨0, 0, 3⟩, "first"⟩
    let third : Remark := ⟨.info, ⟨0, 8, 13⟩, "third"⟩
    let second : Remark := ⟨.info, ⟨0, 4, 7⟩, "second"⟩
    sources.Near (2 * settings.context + 1) third.span second.span ∧
      groupAll sources settings [first, third, second] =
        .ok [⟨⟨0, 0, 7⟩, first, [second]⟩, ⟨⟨0, 8, 13⟩, third, []⟩] := by
  intro sources settings first third second
  refine ⟨⟨⟨0, ⟨8, 2, 0⟩, ⟨13, 2, 5⟩⟩, ⟨0, ⟨4, 1, 0⟩, ⟨7, 1, 3⟩⟩, 1, ?_⟩, ?_⟩
  · decide +kernel
  · decide +kernel

/-- The same remarks in the order of their lines are shown together. -/
theorem near_remarks_share_group_neighbours :
    let sources : Files := ⟨[⟨"a.net", "one\ntwo\nthree\n"⟩]⟩
    let settings : Settings := { context := 0, merge := some 1, styled := false }
    let first : Remark := ⟨.error, ⟨0, 0, 3⟩, "first"⟩
    let second : Remark := ⟨.info, ⟨0, 4, 7⟩, "second"⟩
    let third : Remark := ⟨.info, ⟨0, 8, 13⟩, "third"⟩
    let remarks := [first, second, third]
    remarks.Pairwise (History.InOrder sources) ∧
      sources.Near (2 * settings.context + 1) second.span third.span ∧
      ∃ (groups : List Group) (placed : List (Remark × Nat)),
        groupAll sources settings remarks = .ok groups ∧ placed.map (·.1) = remarks ∧
        ∀ before later after, placed = before ++ later :: after → ∀ earlier ∈ before,
          sources.Near (2 * settings.context + 1) earlier.1.span later.1.span →
          later.2 = earlier.2 := by
  intro sources settings first second third remarks
  have ordered : remarks.Pairwise (History.InOrder sources) := by
    unfold History.InOrder
    decide +kernel
  have has : ∀ remark ∈ remarks, sources.Has remark.span := by
    intro remark inside
    have bounds : ∀ remark ∈ remarks, remark.span.file < sources.files.length ∧
        remark.span.start ≤ remark.span.stop := by decide +kernel
    exact ⟨(bounds remark inside).1, (bounds remark inside).2⟩
  obtain ⟨groups, placed, run, all, _, _, shared⟩ :=
    near_remarks_share_group sources settings rfl (by decide) remarks has
  refine ⟨ordered, ⟨⟨0, ⟨4, 1, 0⟩, ⟨7, 1, 3⟩⟩, ⟨0, ⟨8, 2, 0⟩, ⟨13, 2, 5⟩⟩, 1, ?_⟩, groups, placed,
    run, all, fun before later after parts earlier inside near => ?_⟩
  · decide +kernel
  · exact (shared before later after parts earlier inside near).2.2 ordered

end Diagnostic

end CircuitWidths
