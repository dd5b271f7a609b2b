import CircuitWidths.Proofs.Source.Positions

/-!
# The lines of a text

A text is a sequence of lines without terminators in them, each but the last followed by one
terminator (`Cut`).  Lines start and stop at the offsets that are computed for them, although the
stop of a line is found by taking away all line feeds and carriage returns before the next start:
a line has no more of them than its terminator (`File.lines_cut`).
-/

namespace CircuitWidths

namespace Source

open Text

/-- A line and the characters that terminate it. -/
structure Line where
  body : List Char
  terminator : List Char
  deriving DecidableEq, Repr

/-- The characters of the line with those that terminate it. -/
def Line.text (line : Line) : List Char := line.body ++ line.terminator

/-- The characters are neither line feeds nor carriage returns. -/
def Plain (chars : List Char) : Prop := ∀ char ∈ chars, isTerminator char = false

/-- The characters terminate a line if they are followed by these. -/
inductive Closes : List Char → List Char → Prop
  | feed {after : List Char} : Closes ['\n'] after
  | both {after : List Char} : Closes ['\r', '\n'] after
  | back {after : List Char} (alone : after.head? ≠ some '\n') : Closes ['\r'] after

/-- The text consists of these lines. -/
inductive Cut : List Char → List Line → Prop
  | last {body : List Char} (plain : Plain body) : Cut body [⟨body, []⟩]
  | line (first : Line) {after : List Char} {lines : List Line} (plain : Plain first.body)
      (closes : Closes first.terminator after) (cut : Cut after lines) :
      Cut (first.text ++ after) (first :: lines)

variable {body terminator after chars : List Char} {char : Char} {line : Line}
  {lines front back : List Line} {offset number : Nat}

private theorem plain_nil : Plain [] := List.forall_mem_nil _

private theorem Plain.cons (rest : Plain body) (plain : isTerminator char = false) : Plain
    (char :: body) :=
  List.forall_mem_cons.mpr ⟨plain, rest⟩

private theorem byteLength_of_isTerminator (all : ∀ char ∈ chars, isTerminator char = true) :
    byteLength chars = chars.length := by
  induction chars with
  | nil => rfl
  | cons char rest ih =>
      obtain ⟨here, behind⟩ := List.forall_mem_cons.mp all
      have size : char.utf8Size = 1 := by
        have either : char = '\n' ∨ char = '\r' := by simpa [isTerminator] using here
        rcases either with rfl | rfl <;> rfl
      rw [byteLength, ih behind, size, List.length_cons, Nat.add_comm]

private theorem Closes.isTerminator (closes : Closes terminator after) :
    ∀ char ∈ terminator, isTerminator char = true := by
  cases closes <;> simp [Source.isTerminator]

/-! ## Every text can be cut -/

private theorem Cut.cons (cut : Cut chars lines) (plain : isTerminator char = false) :
    ∃ lines, Cut (char :: chars) lines := by
  cases cut with
  | last rest => exact ⟨_, .last (rest.cons plain)⟩
  | line first rest closes cut =>
      exact ⟨_, .line ⟨char :: first.body, first.terminator⟩ (rest.cons plain) closes cut⟩

private theorem Cut.close (cut : Cut after lines) (closes : Closes terminator after) :
    ∃ lines, Cut (terminator ++ after) lines :=
  ⟨_, .line ⟨[], terminator⟩ plain_nil closes cut⟩

/-- Every text is cut into lines. -/
theorem exists_cut (chars : List Char) : ∃ lines, Cut chars lines := by
  -- A carriage return may take the next character with it, so the rest without its first character
  -- has to be cut as well.
  suffices both : (∃ lines, Cut chars lines) ∧ ∃ lines, Cut chars.tail lines from both.1
  induction chars with
  | nil => exact ⟨⟨_, .last plain_nil⟩, ⟨_, .last plain_nil⟩⟩
  | cons char rest ih =>
      refine ⟨?_, ih.1⟩
      obtain ⟨⟨lines, cut⟩, ⟨tailLines, tailCut⟩⟩ := ih
      by_cases isFeed : char = '\n'
      · subst isFeed
        exact cut.close .feed
      by_cases isReturn : char = '\r'
      · subst isReturn
        by_cases paired : rest.head? = some '\n'
        · obtain ⟨tail, rfl⟩ := List.head?_eq_some_iff.mp paired
          exact tailCut.close .both
        · exact cut.close (.back paired)
      · exact cut.cons (by simp [isTerminator, isFeed, isReturn])

/-! ## Where lines start -/

namespace Lines

private theorem laterStarts_plain (plain : Plain body) :
    laterStarts offset (body ++ after) = laterStarts (offset + byteLength body) after := by
  induction body generalizing offset with
  | nil => rfl
  | cons char rest ih =>
      obtain ⟨here, behind⟩ := List.forall_mem_cons.mp plain
      have continues : endsLine char (rest ++ after) = false := by
        rw [isTerminator, Bool.or_eq_false_iff] at here
        rw [endsLine, here.1, here.2]
        rfl
      rw [List.cons_append, laterStarts, if_neg (by simp [continues]), ih behind, byteLength,
        Nat.add_assoc]

private theorem laterStarts_closes (closes : Closes terminator after) :
    laterStarts offset (terminator ++ after) =
      (offset + byteLength terminator) :: laterStarts (offset + byteLength terminator) after := by
  cases closes with
  | feed => rfl
  | both => rfl
  | back alone =>
      have ends : endsLine '\r' after = true := by simpa [endsLine] using alone
      rw [List.singleton_append, laterStarts, if_pos ends]
      rfl

/-- The starts behind a line are those behind its terminator. -/
theorem laterStarts_line (plain : Plain line.body) (closes : Closes line.terminator after) :
    laterStarts offset (line.text ++ after) =
      (offset + byteLength line.text) :: laterStarts (offset + byteLength line.text) after := by
  rw [Line.text, List.append_assoc, laterStarts_plain plain, laterStarts_closes closes,
    byteLength_append, Nat.add_assoc]

end Lines

namespace Cut

private theorem flatMap_text (cut : Cut chars lines) : lines.flatMap Line.text = chars := by
  induction cut with
  | last _ => simp [Line.text]
  | line _ _ _ _ ih => rw [List.flatMap_cons, ih]

/-- There are as many lines as are counted. -/
theorem length_eq (cut : Cut chars lines) : lines.length = Lines.count chars := by
  suffices length : ∀ offset, (Lines.laterStarts offset chars).length + 1 = lines.length from
    (length 0).symm
  induction cut with
  | @last body plain =>
      intro offset
      have none : Lines.laterStarts offset (body ++ []) = [] := Lines.laterStarts_plain plain
      rw [List.append_nil] at none
      rw [none]
      rfl
  | line _ plain closes _ ih =>
      intro offset
      rw [Lines.laterStarts_line plain closes, List.length_cons, ih, List.length_cons]

/-- The first line of a text is the only one, or it is terminated. -/
theorem first (cut : Cut chars (line :: lines)) : Plain line.body ∧
    ((lines = [] ∧ line.terminator = []) ∨
      ∃ after, chars = line.text ++ after ∧ Closes line.terminator after ∧ Cut after lines) := by
  cases cut with
  | last plain => exact ⟨plain, .inl ⟨rfl, rfl⟩⟩
  | line _ plain closes cut => exact ⟨plain, .inr ⟨_, rfl, closes, cut⟩⟩

private theorem exists_rest (cut : Cut chars (front ++ back)) (more : back ≠ []) :
    ∃ rest, Cut rest back := by
  induction front generalizing chars with
  | nil => exact ⟨chars, cut⟩
  | cons line front ih =>
      obtain ⟨_, ⟨none, _⟩ | ⟨after, _, _, rest⟩⟩ := cut.first
      · exact absurd (List.append_eq_nil_iff.mp none).2 more
      · exact ih rest

private theorem getElem?_starts (cut : Cut chars (front ++ line :: back)) :
    (offset :: Lines.laterStarts offset chars)[front.length]? =
      some (offset + byteLength (front.flatMap Line.text)) := by
  induction front generalizing chars offset with
  | nil => rfl
  | cons previous front ih =>
      obtain ⟨plain, ⟨none, _⟩ | ⟨after, rfl, closes, rest⟩⟩ := cut.first
      · simp at none
      · rw [Lines.laterStarts_line plain closes, List.length_cons, List.getElem?_cons_succ, ih rest,
          List.flatMap_cons, byteLength_append, Nat.add_assoc]

/-! ## Where lines stop -/

section

variable (cut : Cut chars (front ++ line :: back))

include cut

/-- A line starts behind the text of all lines before it. -/
theorem start_eq : Lines.start chars front.length = .ok (byteLength (front.flatMap Line.text)) := by
  rw [Lines.start_eq_ok_iff, Lines.starts, cut.getElem?_starts, Nat.zero_add]

/-- The line is plain, and it is terminated exactly if another line follows. -/
theorem line_closes : Plain line.body ∧
    ((back = [] ∧ line.terminator = []) ∨
      (back ≠ [] ∧ Closes line.terminator (back.flatMap Line.text))) := by
  obtain ⟨rest, restCut⟩ := cut.exists_rest (List.cons_ne_nil line back)
  obtain ⟨plain, last | ⟨after, _, closes, more⟩⟩ := restCut.first
  · exact ⟨plain, .inl last⟩
  · refine ⟨plain, .inr ⟨?_, ?_⟩⟩
    · intro none
      subst none
      cases more
    · rwa [more.flatMap_text]

/-- The text around a line that was cut out. -/
theorem eq_append : chars = front.flatMap Line.text ++ line.text ++ back.flatMap Line.text := by
  rw [← cut.flatMap_text, List.flatMap_append, List.flatMap_cons, List.append_assoc]

/-- The text around the body of a line that was cut out. -/
theorem eq_append_body :
    chars = front.flatMap Line.text ++ line.body ++
      (line.terminator ++ back.flatMap Line.text) := by
  rw [cut.eq_append, Line.text, ← List.append_assoc, List.append_assoc]

/-- The next line starts behind this one and its terminator. -/
theorem start_next (more : back ≠ []) :
    Lines.start chars (front.length + 1) =
      .ok (byteLength (front.flatMap Line.text ++ line.text)) := by
  obtain ⟨next, rest, rfl⟩ := List.exists_cons_of_ne_nil more
  rw [List.append_cons] at cut
  have start := cut.start_eq
  rwa [List.length_append, List.length_singleton, List.flatMap_append,
    List.flatMap_singleton] at start

private theorem succ_lt_count_iff : front.length + 1 < Lines.count chars ↔ back ≠ [] := by
  rw [← cut.length_eq, List.length_append, List.length_cons, ← List.length_pos_iff]
  omega

private theorem next_eq :
    (Lines.starts chars)[front.length + 1]?.getD (byteLength chars) =
      byteLength (front.flatMap Line.text ++ line.text) := by
  by_cases more : back = []
  · have outside : (Lines.starts chars)[front.length + 1]? = none :=
      List.getElem?_eq_none (Nat.le_of_not_lt fun inside => cut.succ_lt_count_iff.mp inside more)
    rw [outside, Option.getD_none, cut.eq_append, more, List.flatMap_nil, List.append_nil]
  · rw [Lines.start_eq_ok_iff.mp (cut.start_next more), Option.getD_some]

/-- The line feeds and carriage returns at the end of a line are its terminator. -/
theorem trailing_eq :
    (line.text.reverse.takeWhile isTerminator).length = byteLength line.terminator := by
  obtain ⟨plain, terminated⟩ := cut.line_closes
  have bodyEnds : line.body.reverse.takeWhile isTerminator = [] := by
    cases reversed : line.body.reverse with
    | nil => rfl
    | cons char rest =>
        have inside : char ∈ line.body := by
          rw [← List.mem_reverse, reversed]
          exact List.mem_cons_self
        exact List.takeWhile_cons_of_neg (by simp [plain char inside])
  have all : ∀ char ∈ line.terminator, isTerminator char = true := by
    rcases terminated with ⟨_, none⟩ | ⟨_, closes⟩
    · simp [none]
    · exact closes.isTerminator
  rw [Line.text, List.reverse_append, List.takeWhile_append_of_pos (by simpa using all), bodyEnds,
    List.append_nil, List.length_reverse, byteLength_of_isTerminator all]

/-- A line stops behind its body, before its terminator. -/
theorem stop_eq :
    Lines.stop chars front.length = .ok (byteLength (front.flatMap Line.text ++ line.body)) := by
  have sliced : slice? chars (byteLength (front.flatMap Line.text))
      (byteLength (front.flatMap Line.text ++ line.text)) = some line.text := by
    rw [cut.eq_append]
    exact slice?_append _ _ _
  have left : byteLength (front.flatMap Line.text ++ line.text) - byteLength line.terminator =
      byteLength (front.flatMap Line.text ++ line.body) := by
    simp only [Line.text, byteLength_append]
    omega
  simp only [Lines.stop, cut.start_eq, cut.next_eq, bind, Except.bind, sliced, cut.trailing_eq,
    left]

/-- No line stops behind the end of the text. -/
theorem stop_le : byteLength (front.flatMap Line.text ++ line.body) ≤ byteLength chars := by
  rw [cut.eq_append_body, byteLength_append _ (line.terminator ++ _)]
  exact Nat.le_add_right _ _

private theorem extract_body :
    (bytes chars).extract (byteLength (front.flatMap Line.text))
      (byteLength (front.flatMap Line.text ++ line.body)) = bytes line.body := by
  rw [cut.eq_append_body]
  exact extract_append _ _ _

private theorem extract_terminator :
    (bytes chars).extract (byteLength (front.flatMap Line.text ++ line.body))
      (byteLength (front.flatMap Line.text ++ line.text)) = bytes line.terminator := by
  rw [cut.eq_append, Line.text, ← List.append_assoc]
  exact extract_append _ _ _

end

/-- The last line stops where the text does. -/
theorem stop_last (cut : Cut chars (front ++ [line])) :
    byteLength (front.flatMap Line.text ++ line.body) = byteLength chars := by
  obtain ⟨_, ⟨_, empty⟩ | ⟨more, _⟩⟩ := cut.line_closes
  · rw [cut.eq_append, Line.text, empty, List.flatMap_nil, List.append_nil, List.append_nil]
  · exact absurd rfl more

end Cut

/-- The line with a number, and the lines before and behind it. -/
theorem exists_front (found : lines[number]? = some line) :
    ∃ front back, front.length = number ∧ lines = front ++ line :: back := by
  obtain ⟨inside, rfl⟩ := List.getElem?_eq_some_iff.mp found
  refine ⟨lines.take number, lines.drop (number + 1), List.length_take_of_le inside.le, ?_⟩
  rw [← List.drop_eq_getElem_cons inside, List.take_append_drop]

/-! ## Lines in bytes -/

/-- The sequences of bytes that terminate a line. -/
def terminators : List (List UInt8) := [[lineFeed], [carriageReturn, lineFeed], [carriageReturn]]

private theorem Closes.mem_terminators (closes : Closes terminator after) :
    bytes terminator ∈ terminators := by
  cases closes <;> decide

/-- There is no byte of a terminator in the body of a line. -/
theorem Plain.not_mem_bytes (plain : Plain body) :
    lineFeed ∉ bytes body ∧ carriageReturn ∉ bytes body := by
  constructor
  · intro inside
    have := plain '\n' ((mem_bytes_iff (by decide) body).mp inside)
    simp [isTerminator] at this
  · intro inside
    have := plain '\r' ((mem_bytes_iff (by decide) body).mp inside)
    simp [isTerminator] at this

/-- **Lines cut the text.**  The bytes of a file are those of its lines, each followed by what
terminates it.  A line goes from its start to its stop and has neither line feeds nor carriage
returns in it.  From there to the start of the next line there is one terminator, and the last line
stops where the text does. -/
theorem File.lines_cut (file : File) :
    ∃ lines : List Line, lines.length = file.lineCount ∧
      lines.flatMap (fun line => Text.bytes line.body ++ Text.bytes line.terminator) = file.bytes ∧
      ∀ number line, lines[number]? = some line → ∃ start stop,
        file.lineStart number = .ok start ∧ file.lineStop number = .ok stop ∧
        start ≤ stop ∧ stop ≤ file.bytes.length ∧
        file.bytes.extract start stop = Text.bytes line.body ∧
        lineFeed ∉ Text.bytes line.body ∧ carriageReturn ∉ Text.bytes line.body ∧
        (number + 1 < file.lineCount → ∃ next, file.lineStart (number + 1) = .ok next ∧
          file.bytes.extract stop next = Text.bytes line.terminator ∧
          Text.bytes line.terminator ∈ terminators) ∧
        (number + 1 = file.lineCount → stop = file.bytes.length ∧
          Text.bytes line.terminator = []) := by
  obtain ⟨lines, cut⟩ := exists_cut file.chars
  refine ⟨lines, cut.length_eq, ?_, ?_⟩
  · rw [bytes_eq, ← cut.flatMap_text, Text.bytes, List.flatMap_assoc]
    exact List.flatMap_congr fun line _ => (bytes_append line.body line.terminator).symm
  · intro number line found
    obtain ⟨front, back, rfl, rfl⟩ := exists_front found
    obtain ⟨plain, terminated⟩ := cut.line_closes
    have count : front.length + 1 < file.lineCount ↔ back ≠ [] := cut.succ_lt_count_iff
    rw [bytes_eq, length_bytes]
    refine ⟨_, _, cut.start_eq, cut.stop_eq, ?_, cut.stop_le, cut.extract_body,
      plain.not_mem_bytes.1, plain.not_mem_bytes.2, ?_, ?_⟩
    · simp
    · intro follows
      have more := count.mp follows
      obtain ⟨none, _⟩ | ⟨_, closes⟩ := terminated
      · exact absurd none more
      · exact ⟨_, cut.start_next more, cut.extract_terminator, closes.mem_terminators⟩
    · intro last
      obtain ⟨none, empty⟩ | ⟨more, _⟩ := terminated
      · subst none
        exact ⟨cut.stop_last, by rw [empty, bytes_nil]⟩
      · exact absurd last (count.mpr more).ne

end Source

end CircuitWidths
