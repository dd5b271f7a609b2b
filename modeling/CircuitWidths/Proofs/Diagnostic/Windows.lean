import CircuitWidths.Diagnostic.Excerpt
import CircuitWidths.Proofs.Diagnostic.Partition
import CircuitWidths.Proofs.Related
import CircuitWidths.Proofs.Source.Lines

/-!
# Excerpts are pieces of the text

The excerpt for a group of remarks is a piece of the text of its file.  It goes from the start of a
line to the stop of a line, and it reaches the remarks of the group, up to one byte: a remark may
end between the two bytes of a terminator (`excerpts_sliced`).
-/

namespace CircuitWidths

namespace Source

open Text

variable {chars terminator after : List Char} {line : Line} {front back : List Line}
  {number byte : Nat}

/-! ## Where lines start and stop -/

/-- A line starts at the offset, behind a terminator or at the start of the text. -/
def StartsLine (bytes : List UInt8) (offset : Nat) : Prop :=
  offset = 0 ∨ TerminatorEnds bytes offset

/-- A line stops at the offset, before its terminator or at the end of the text. -/
def StopsLine (bytes : List UInt8) (offset : Nat) : Prop :=
  offset = bytes.length ∨ ∃ next, IsTerminator bytes offset next

private theorem Lines.startsLine {start : Nat} (found : Lines.start chars number = .ok start) :
    StartsLine (bytes chars) start := by
  rw [Lines.start_eq_ok_iff] at found
  rcases List.mem_cons.mp (List.mem_of_getElem? found) with first | later
  · exact .inl first
  · exact .inr (Lines.terminatorEnds_iff.mpr later)

private theorem Closes.byteLength_le (closes : Closes terminator after) :
    byteLength terminator ≤ 2 := by
  cases closes <;> decide

namespace Cut

variable (cut : Cut chars (front ++ line :: back))

include cut

/-- No carriage return stands before the line feed that terminates a line alone. -/
theorem feed_alone
    (feed : (bytes chars)[byteLength (front.flatMap Line.text ++ line.body)]? = some lineFeed) :
    byteLength (front.flatMap Line.text ++ line.body) = 0 ∨
      (bytes chars)[byteLength (front.flatMap Line.text ++ line.body) - 1]? ≠
        some carriageReturn := by
  by_cases empty : byteLength line.body = 0
  · -- The line is empty, so the byte before it ends the previous terminator.
    rw [byteLength_append, empty, Nat.add_zero] at feed ⊢
    rcases Lines.startsLine cut.start_eq with first | ends
    · exact .inl first
    · right
      generalize byteLength (front.flatMap Line.text) = start at ends feed ⊢
      cases start with
      | zero => exact absurd ends not_terminatorEnds_zero
      | succ last =>
          rcases terminatorEnds_succ_iff.mp ends with previous | ⟨_, alone⟩
          · rw [Nat.add_sub_cancel, previous]
            decide
          · exact absurd feed alone
  · right
    intro found
    have place : byteLength (front.flatMap Line.text ++ line.body) - 1 =
        byteLength (front.flatMap Line.text) + (byteLength line.body - 1) := by
      rw [byteLength_append]
      omega
    rw [place, cut.eq_append, Line.text, List.append_assoc, List.append_assoc,
      getElem?_bytes_append, bytes_append,
      List.getElem?_append_left (by rw [length_bytes]; omega)] at found
    exact cut.line_closes.1.not_mem_bytes.2 (List.mem_of_getElem? found)

private theorem isTerminator (more : back ≠ []) :
    IsTerminator (bytes chars) (byteLength (front.flatMap Line.text ++ line.body))
      (byteLength (front.flatMap Line.text ++ line.text)) := by
  obtain ⟨_, ⟨none, _⟩ | ⟨_, closes⟩⟩ := cut.line_closes
  · exact absurd none more
  have byte (index : Nat) :
      (bytes chars)[byteLength (front.flatMap Line.text ++ line.body) + index]? =
        (bytes (line.terminator ++ back.flatMap Line.text))[index]? := by
    rw [cut.eq_append_body, getElem?_bytes_append]
  rw [Line.text, ← List.append_assoc, byteLength_append _ line.terminator]
  generalize line.terminator = terminator at closes byte
  cases closes with
  | feed => exact .feed (byte 0) (cut.feed_alone (byte 0))
  | both => exact .both (byte 0) (byte 1)
  | back alone =>
      refine .back (byte 0) fun next => alone ?_
      rw [byte 1] at next
      exact (getElem?_bytes_zero_iff _).mp next

private theorem stopsLine :
    StopsLine (bytes chars) (byteLength (front.flatMap Line.text ++ line.body)) := by
  by_cases more : back = []
  · subst more
    left
    rw [length_bytes, cut.stop_last]
  · exact .inr ⟨_, cut.isTerminator more⟩

/-- A byte of the text that is not below a line lies at most one byte behind its stop. -/
theorem le_stop (inside : byte ≤ byteLength chars)
    (above : Lines.lineOf chars byte ≤ front.length) :
    byte ≤ byteLength (front.flatMap Line.text ++ line.body) + 1 := by
  obtain ⟨_, ⟨none, _⟩ | ⟨more, closes⟩⟩ := cut.line_closes
  · subst none
    rw [cut.stop_last]
    omega
  · -- The byte is before the next line, and a terminator has at most two bytes.
    have next := Lines.start_eq_ok_iff.mp (cut.start_next more)
    have before := (Lines.le_lineOf_iff next).not.mp (Nat.not_le_of_lt (Nat.lt_succ_of_le above))
    have short := closes.byteLength_le
    rw [Line.text, ← List.append_assoc, byteLength_append _ line.terminator] at before
    omega

end Cut

private theorem Lines.start_mono {later start laterStart : Nat} (le : number ≤ later)
    (found : Lines.start chars number = .ok start)
    (laterFound : Lines.start chars later = .ok laterStart) : start ≤ laterStart := by
  rw [Lines.start_eq_ok_iff] at found laterFound
  have reached := (Lines.le_lineOf_iff laterFound).mpr (le_refl laterStart)
  exact (Lines.le_lineOf_iff found).mp (le.trans reached)

private theorem exists_line (inside : number < Lines.count chars) :
    ∃ front line back, front.length = number ∧ Cut chars (front ++ line :: back) := by
  obtain ⟨lines, cut⟩ := exists_cut chars
  rw [← cut.length_eq] at inside
  obtain ⟨line, found⟩ : ∃ line, lines[number]? = some line :=
    ⟨_, List.getElem?_eq_getElem inside⟩
  obtain ⟨front, back, length, rfl⟩ := exists_front found
  exact ⟨front, line, back, length, cut⟩

namespace Files

variable {sources : Files} {span : Span} {file : File}

/-- The span lies in the text of one of the files. -/
structure Holds (sources : Files) (span : Span) : Prop where
  ordered : span.start ≤ span.stop
  inside : ∃ file, sources.get span.file = .ok file ∧ span.stop ≤ file.bytes.length

private theorem getElem?_of_get (got : sources.get number = .ok file) :
    sources.files[number]? = some file := by
  rw [get] at got
  split at got
  next found same =>
    rw [same, Except.ok.inj got]
  next => cases got

private theorem Holds.has (holds : sources.Holds span) : sources.Has span := by
  obtain ⟨file, got, _⟩ := holds.inside
  exact ⟨(List.getElem?_eq_some_iff.mp (getElem?_of_get got)).1, holds.ordered⟩

private theorem lastLine_eq (got : sources.get span.file = .ok file) :
    sources.lastLine span = Lines.lineOf file.chars span.stop := by
  rw [lastLine, lineAt, getElem?_of_get got]

end Files

end Source

namespace Diagnostic

open Source

/-! ## Windows -/

/-- The window is a piece of the text that starts and stops with lines. -/
structure Window.Cuts (window : Window) (file : File) : Prop where
  ordered : window.start ≤ window.stop
  inside : window.stop ≤ file.bytes.length
  startValid : String.Pos.Raw.IsValid file.text ⟨window.start⟩
  stopValid : String.Pos.Raw.IsValid file.text ⟨window.stop⟩
  startsLine : StartsLine file.bytes window.start
  stopsLine : StopsLine file.bytes window.stop

variable {file : File} {span : Span} {context first last byte : Nat}

/-- Lines of a file make up a window, which reaches the bytes on them. -/
theorem exists_window (ordered : first ≤ last) (inside : last < file.lineCount) :
    ∃ start stop text, file.lineStart first = .ok start ∧ file.lineStop last = .ok stop ∧
      Window.Cuts ⟨first, last, start, stop⟩ file ∧ file.slice start stop = .ok text ∧
      (∀ byte, first ≤ Lines.lineOf file.chars byte → start ≤ byte) ∧
      ∀ byte ≤ file.bytes.length, Lines.lineOf file.chars byte ≤ last → byte ≤ stop + 1 := by
  obtain ⟨front, line, back, rfl, cut⟩ := exists_line (ordered.trans_lt inside)
  obtain ⟨lastFront, lastLine, lastBack, rfl, lastCut⟩ := exists_line inside
  have ends : Text.byteLength (front.flatMap Line.text) ≤
      Text.byteLength (lastFront.flatMap Line.text ++ lastLine.body) := by
    have le := Lines.start_mono ordered cut.start_eq lastCut.start_eq
    rw [Text.byteLength_append]
    omega
  have whole : file.chars = front.flatMap Line.text ++ (line.text ++ back.flatMap Line.text) := by
    rw [cut.eq_append, List.append_assoc]
  obtain ⟨text, sliced⟩ := Text.exists_slice whole lastCut.eq_append_body ends
  rw [File.bytes_eq, Text.length_bytes]
  refine ⟨_, _, text, cut.start_eq, lastCut.stop_eq, ?_, ?_, ?_, ?_⟩
  · refine ⟨ends, ?_, Text.isValid_append whole, Text.isValid_append lastCut.eq_append_body, ?_, ?_⟩
    · rw [File.bytes_eq, Text.length_bytes]
      exact lastCut.stop_le
    · rw [File.bytes_eq]
      exact Lines.startsLine cut.start_eq
    · rw [File.bytes_eq]
      exact lastCut.stopsLine
  · rw [File.slice, sliced]
  · intro byte reached
    exact (Lines.le_lineOf_iff (Lines.start_eq_ok_iff.mp cut.start_eq)).mp reached
  · intro byte within above
    exact lastCut.le_stop within above

/-- The window around a span of the text reaches the span. -/
theorem exists_around (ordered : span.start ≤ span.stop) (inside : span.stop ≤ file.bytes.length)
    (counted : Lines.lineOf file.chars span.stop + context ≤ largestCount) :
    ∃ window text, Window.around file context span = .ok window ∧ window.Cuts file ∧
      file.slice window.start window.stop = .ok text ∧
      window.start ≤ span.start ∧ span.stop ≤ window.stop + 1 := by
  have stopLine : Lines.lineOf file.chars span.stop < file.lineCount :=
    Lines.lineOf_lt_count file.chars span.stop
  have lines := Lines.lineOf_mono file.chars ordered
  have order : Lines.lineOf file.chars span.start - context ≤
      min (Lines.lineOf file.chars span.stop + context) (file.lineCount - 1) := by omega
  have shown : min (Lines.lineOf file.chars span.stop + context) (file.lineCount - 1) <
      file.lineCount := by omega
  obtain ⟨start, stop, text, starts, stops, cuts, sliced, before, behind⟩ :=
    exists_window order shown
  have below : countable ((file.extent span).stop.line + context) =
      .ok (Lines.lineOf file.chars span.stop + context) := if_pos counted
  have startsAt : file.lineStart ((file.extent span).start.line - context) = .ok start := starts
  refine ⟨_, text, ?_, cuts, sliced, before _ (Nat.sub_le _ _), behind _ inside (by omega)⟩
  simp only [Window.around, below, bind, Except.bind, startsAt, stops]
  rfl

/-! ## Excerpts -/

variable {sources : Files} {settings : Settings} {group : Group} {remark : Remark}
  {window : Window}

/-- The mark is the remark with its range counted from the start of the window.  It ends at most one
byte behind the window. -/
structure Window.Marks (window : Window) (remark : Remark) (mark : Mark) : Prop where
  start_le : window.start ≤ remark.span.start
  start_le_stop : window.start ≤ remark.span.stop
  stop_le : remark.span.stop ≤ window.stop + 1
  mark_eq : mark = ⟨remark.level, remark.span.start - window.start,
    remark.span.stop - window.start, remark.label⟩

/-- The excerpt is the piece of the text in the window around the group, with its remarks marked. -/
structure Excerpt.Shows (sources : Files) (settings : Settings) (group : Group)
    (excerpt : Excerpt) (file : File) (window : Window) : Prop where
  file_eq : sources.get group.span.file = .ok file
  window_eq : Window.around file settings.context group.span = .ok window
  cuts : window.Cuts file
  text_eq : file.slice window.start window.stop = .ok excerpt.text
  marks : List.Forall₂ window.Marks group.remarks excerpt.marks

private theorem exists_mark (ordered : remark.span.start ≤ remark.span.stop)
    (before : window.start ≤ remark.span.start) (behind : remark.span.stop ≤ window.stop + 1) :
    ∃ mark, Excerpt.mark window.start remark = .ok mark ∧ window.Marks remark mark :=
  ⟨_, if_pos ⟨before, before.trans ordered⟩, before, before.trans ordered, behind, rfl⟩

private theorem exists_excerpt (fits : group.Fits sources)
    (holds : ∀ remark ∈ group.remarks, sources.Holds remark.span)
    (counted : ∀ remark ∈ group.remarks,
      sources.lastLine remark.span + settings.context ≤ largestCount) :
    ∃ excerpt, Excerpt.ofGroup sources settings group = .ok excerpt ∧
      ∃ file window, Excerpt.Shows sources settings group excerpt file window := by
  -- The group ends with one of its remarks, so it lies in the text as well.
  obtain ⟨last, member, stop⟩ := fits.stops
  obtain ⟨file, got, inside⟩ := (holds last member).inside
  have lines := counted last member
  rw [Files.lastLine_eq got, stop] at lines
  rw [(fits.holds last member).1] at got
  rw [stop] at inside
  obtain ⟨window, text, around, cuts, sliced, before, behind⟩ :=
    exists_around fits.has.ordered inside lines
  have marks : ∀ remark ∈ group.remarks, ∃ mark,
      Excerpt.mark window.start remark = .ok mark ∧ window.Marks remark mark := by
    intro remark inGroup
    obtain ⟨_, start, stop⟩ := fits.holds remark inGroup
    exact exists_mark (holds remark inGroup).ordered (before.trans start) (stop.trans behind)
  obtain ⟨⟨primary, primaryRun, primaryMarks⟩, rest⟩ := List.forall_mem_cons.mp marks
  obtain ⟨others, othersRun, othersMark⟩ := exists_mapM_ok rest
  refine ⟨⟨file.path, window.firstLine, text, primary, others⟩, ?_, file, window, got, around, cuts,
    sliced, .cons primaryMarks othersMark⟩
  simp only [Excerpt.ofGroup, got, around, sliced, primaryRun, othersRun, bind, Except.bind]

/-- **Excerpts are pieces of the text.**  If all remarks of a diagnostic lie in the texts of its
files and the lines can be counted, each group of remarks is shown in an excerpt of its file.  The
excerpt starts with a line and stops with a line, both at character boundaries of the text.  The
remarks of the group do not start before it, and they end at most one byte behind it. -/
theorem excerpts_sliced (sources : Files) (settings : Settings) (diagnostic : Diagnostic)
    (holds : ∀ remark ∈ diagnostic.remarks, sources.Holds remark.span)
    (countedLimit : ∀ distance, settings.merge = some distance →
      2 * settings.context + distance ≤ largestCount)
    (countedLines : ∀ remark ∈ diagnostic.remarks,
      sources.lastLine remark.span + settings.context ≤ largestCount) :
    ∃ groups shown, groupAll sources settings diagnostic.remarks = .ok groups ∧
      excerpts sources settings diagnostic = .ok shown ∧
      List.Forall₂ (fun group excerpt => ∃ file window,
        Excerpt.Shows sources settings group excerpt file window) groups shown := by
  obtain ⟨placed, groups, all, arranges⟩ := exists_arrangement countedLimit diagnostic.remarks
    fun remark inside => (holds remark inside).has
  have run := arranges.run
  have perm := arranges.perm
  rw [all] at run perm
  have each : ∀ group ∈ groups, ∃ excerpt, Excerpt.ofGroup sources settings group = .ok excerpt ∧
      ∃ file window, Excerpt.Shows sources settings group excerpt file window := by
    intro group inside
    have among (remark : Remark) (member : remark ∈ group.remarks) :
        remark ∈ diagnostic.remarks :=
      perm.mem_iff.mp (List.mem_flatMap.mpr ⟨group, inside, member⟩)
    exact exists_excerpt (arranges.fits group inside)
      (fun remark member => holds remark (among remark member))
      (fun remark member => countedLines remark (among remark member))
  obtain ⟨shown, runs, shows⟩ := exists_mapM_ok each
  refine ⟨groups, shown, run, ?_, shows⟩
  rw [excerpts, run]
  exact runs

/-- A remark that ends between a carriage return and its line feed ends one byte behind the
excerpt. -/
theorem excerpts_sliced_within_terminator :
    let sources : Files := ⟨[⟨"a.net", "é\r\nb"⟩]⟩
    let settings : Settings := { context := 0, merge := some 0, styled := false }
    let remark : Remark := ⟨.error, ⟨0, 0, 3⟩, "here"⟩
    let diagnostic : Diagnostic := ⟨"split", remark, [], []⟩
    sources.Holds remark.span ∧ sources.lastLine remark.span + settings.context ≤ largestCount ∧
      excerpts sources settings diagnostic =
        .ok [⟨"a.net", 0, ['é'], ⟨.error, 0, 3, "here"⟩, []⟩] ∧
      ∃ groups shown, groupAll sources settings diagnostic.remarks = .ok groups ∧
        excerpts sources settings diagnostic = .ok shown ∧
        List.Forall₂ (fun group excerpt => ∃ file window,
          Excerpt.Shows sources settings group excerpt file window) groups shown := by
  intro sources settings remark diagnostic
  have holds : sources.Holds remark.span := ⟨by decide, _, rfl, by decide +kernel⟩
  have counted : sources.lastLine remark.span + settings.context ≤ largestCount := by
    decide +kernel
  have only {other : Remark} (inside : other ∈ diagnostic.remarks) : other = remark :=
    List.mem_singleton.mp inside
  refine ⟨holds, counted, by decide +kernel, excerpts_sliced sources settings diagnostic ?_ ?_ ?_⟩
  · intro other inside
    rw [only inside]
    exact holds
  · intro distance merges
    obtain rfl := Option.some.inj merges
    decide
  · intro other inside
    rw [only inside]
    exact counted

end Diagnostic

end CircuitWidths
