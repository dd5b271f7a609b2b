import CircuitWidths.Proofs.Text.Reading
import CircuitWidths.Signature

/-!
# Rendered text determines what it renders

Static expressions, types and signatures can be read off from their texts if the names in them are
identifiers.  The cases of an expression are told apart by how the text begins and by the first
blank outside of parentheses; an operand that is an operation has parentheses around it, so an
operand ends before the first such blank.
-/

namespace CircuitWidths

open Text

/-! ## Static expressions -/

namespace Static

/-- The sign of an operator, and what stands behind it. -/
theorem Op.symbol_unique {op other : Op} {rest otherRest : List Char}
    (same : op.symbol.toList ++ ' ' :: rest = other.symbol.toList ++ ' ' :: otherRest) :
    op = other ∧ rest = otherRest := by
  have noBlank : ∀ op : Op, ∀ char ∈ op.symbol.toList, (char != ' ') = true := by
    intro op
    cases op <;> exact List.all_eq_true.mp (by decide)
  have injective : ∀ op other : Op, op.symbol.toList = other.symbol.toList → op = other := by
    intro op other
    cases op <;> cases other <;> decide
  have ends {rest : List Char} : ∀ char ∈ (' ' :: rest).head?, (char != ' ') = false := by simp
  obtain ⟨symbols, rests⟩ := word_unique (noBlank op) ends (noBlank other) ends same
  exact ⟨injective op other symbols, (List.cons.inj rests).2⟩

namespace Expr

variable {expr other left right : Expr} {op : Op}

/-- All names in the expression are identifiers. -/
def Legible (expr : Expr) : Prop := ∀ name, expr.mentions name = true → IsIdentifier name

/-- The expression is a literal or a name. -/
def IsAtom : Expr → Prop
  | .binary _ _ _ => False
  | .int _ | .bool _ | .var _ => True

private theorem atom_or_binary (expr : Expr) :
    expr.IsAtom ∨ ∃ op left right, expr = binary op left right := by
  cases expr with
  | int _ | bool _ | var _ => exact .inl trivial
  | binary op left right => exact .inr ⟨op, left, right, rfl⟩

/-- The text of the expression as an operand. -/
def operand (expr : Expr) : String := expr.parenthesize expr.render

/-- An operation is legible if both of its operands are. -/
theorem legible_binary :
    (binary op left right).Legible ↔ left.Legible ∧ right.Legible := by
  simp only [Legible, mentions, Bool.or_eq_true]
  exact ⟨fun both => ⟨fun name inside => both name (.inl inside),
    fun name inside => both name (.inr inside)⟩, fun both name inside =>
    inside.elim (both.1 name) (both.2 name)⟩

/-- Integers are always legible. -/
theorem legible_int {value : Int} : (int value).Legible := by
  simp [Legible, mentions]

/-- A variable is legible if its name is an identifier. -/
theorem legible_var {name : String} : (var name).Legible ↔ IsIdentifier name := by
  simp [Legible, mentions]

private theorem toList_render_binary : (binary op left right).render.toList =
    left.operand.toList ++ ' ' :: (op.symbol.toList ++ ' ' :: right.operand.toList) := by
  have blank : " ".toList = [' '] := by decide
  simp only [render, operand, String.toList_append, blank, List.append_assoc, List.cons_append,
    List.nil_append]

private theorem toList_operand_binary : (binary op left right).operand.toList =
    '(' :: ((binary op left right).render.toList ++ [')']) := by
  have opening : "(".toList = ['('] := by decide
  have closing : ")".toList = [')'] := by decide
  simp only [operand, parenthesize, String.toList_append, opening, closing, List.cons_append,
    List.nil_append]

private theorem IsAtom.operand (atom : expr.IsAtom) : expr.operand = expr.render := by
  cases expr with
  | int _ | bool _ | var _ => rfl
  | binary op left right => exact atom.elim

/-! ### Literals and names -/

/-- Literals and names consist of these. -/
def isWordChar (char : Char) : Bool := isNameChar char || char == '-'

private theorem toList_repr_negSucc (number : Nat) :
    (Int.negSucc number).repr.toList = '-' :: (number + 1).repr.toList := by
  have sign : "-".toList = ['-'] := by decide
  rw [Int.repr, String.toList_append, sign]
  rfl

private theorem isWordChar_of_mem_int {value : Int} {char : Char}
    (inside : char ∈ value.repr.toList) : isWordChar char = true := by
  cases value with
  | ofNat number => simp [isWordChar, isNameChar_of_isDigit (isDigit_of_mem_repr inside)]
  | negSucc number =>
      rw [toList_repr_negSucc] at inside
      rcases List.mem_cons.mp inside with rfl | digit
      · decide
      · simp [isWordChar, isNameChar_of_isDigit (isDigit_of_mem_repr digit)]

private theorem IsAtom.chars (atom : expr.IsAtom) (legible : expr.Legible) :
    ∀ char ∈ expr.render.toList, isWordChar char = true := by
  cases expr with
  | int value => exact fun char inside => isWordChar_of_mem_int inside
  | bool value => cases value <;> exact List.all_eq_true.mp (by decide)
  | var name =>
      intro char inside
      simp [isWordChar, (legible_var.mp legible).chars char inside]
  | binary op left right => exact atom.elim

/-- Numbers begin with a digit or a sign. -/
theorem int_repr_ne {value : Int} {text : String} {char : Char} {rest : List Char}
    (chars : text.toList = char :: rest) (noDigit : char.isDigit = false) (noSign : char ≠ '-') :
    value.repr ≠ text := by
  rintro rfl
  cases value with
  | ofNat number =>
      have inside : char ∈ number.repr.toList := by
        rw [show number.repr.toList = _ from chars]
        exact List.mem_cons_self
      exact Bool.false_ne_true (noDigit.symm.trans (isDigit_of_mem_repr inside))
  | negSucc number =>
      rw [toList_repr_negSucc] at chars
      exact noSign (List.cons.inj chars).1.symm

private theorem int_repr_injective : Function.Injective Int.repr := by
  have signs (number other : Nat) : (Int.ofNat number).repr ≠ (Int.negSucc other).repr := by
    intro same
    have inside : '-' ∈ number.repr.toList := by
      rw [show number.repr = _ from same, toList_repr_negSucc]
      exact List.mem_cons_self
    exact absurd (isDigit_of_mem_repr inside) (by decide)
  intro value other same
  cases value with
  | ofNat number =>
      cases other with
      | ofNat otherNumber => exact congrArg Int.ofNat (repr_injective same)
      | negSucc otherNumber => exact (signs number otherNumber same).elim
  | negSucc number =>
      cases other with
      | ofNat otherNumber => exact (signs otherNumber number same.symm).elim
      | negSucc otherNumber =>
          have chars := congrArg String.toList same
          rw [toList_repr_negSucc, toList_repr_negSucc] at chars
          have numbers := repr_injective (String.toList_injective (List.cons.inj chars).2)
          rw [Nat.succ.inj numbers]

private theorem var_ne_int {name : String} {value : Int} (identifier : IsIdentifier name) :
    value.repr ≠ name := by
  obtain ⟨char, rest, chars⟩ := exists_cons_of_ne identifier.nonempty
  refine int_repr_ne chars (identifier.start char (by rw [chars]; rfl)) ?_
  rintro rfl
  have isName := identifier.chars '-' (by rw [chars]; exact List.mem_cons_self)
  revert isName
  decide

private theorem bool_ne_int {truth : Bool} {value : Int} : value.repr ≠ (bool truth).render := by
  have isTrue : (bool true).render.toList = ['t', 'r', 'u', 'e'] := by decide
  have isFalse : (bool false).render.toList = ['f', 'a', 'l', 's', 'e'] := by decide
  cases truth with
  | true => exact int_repr_ne isTrue (by decide) (by decide)
  | false => exact int_repr_ne isFalse (by decide) (by decide)

private theorem var_ne_bool {name : String} {truth : Bool} (identifier : IsIdentifier name) :
    name ≠ (bool truth).render := by
  cases truth with
  | true => exact identifier.ne_true
  | false => exact identifier.ne_false

/-- Literals and names are told apart by their texts. -/
theorem IsAtom.injective (atom : expr.IsAtom) (legible : expr.Legible) (otherAtom : other.IsAtom)
    (otherLegible : other.Legible) (same : expr.render = other.render) : expr = other := by
  cases expr with
  | binary _ _ _ => exact atom.elim
  | int value =>
      cases other with
      | binary _ _ _ => exact otherAtom.elim
      | int _ => rw [int_repr_injective same]
      | bool _ => exact (bool_ne_int same).elim
      | var _ => exact (var_ne_int (legible_var.mp otherLegible) same).elim
  | bool value =>
      cases other with
      | binary _ _ _ => exact otherAtom.elim
      | int _ => exact (bool_ne_int same.symm).elim
      | bool _ =>
          have truths : ∀ truth value : Bool,
              (bool truth).render = (bool value).render → truth = value := by decide
          rw [truths _ _ same]
      | var _ => exact (var_ne_bool (legible_var.mp otherLegible) same.symm).elim
  | var name =>
      cases other with
      | binary _ _ _ => exact otherAtom.elim
      | int _ => exact (var_ne_int (legible_var.mp legible) same.symm).elim
      | bool _ => exact (var_ne_bool (legible_var.mp legible) same).elim
      | var _ => exact congrArg var same

/-! ### Operands and operations -/

variable {marks rest otherRest : List Char}

/-- What stands behind an expression. -/
def endings : List Char := [']', ',', ')']

/-- What stands behind an operand. -/
def operandEndings : List Char := ' ' :: endings

private theorem ends_word (subset : marks ⊆ operandEndings) (continues : Continues marks rest) :
    ∀ char ∈ rest.head?, isWordChar char = false := by
  have noLetter : ∀ char ∈ operandEndings, isWordChar char = false :=
    forall_mem_of_all (by decide)
  exact fun char first => noLetter char (subset (continues char first))

private theorem IsAtom.reads_atom (atom : expr.IsAtom) (legible : expr.Legible)
    (otherAtom : other.IsAtom) (otherLegible : other.Legible) (subset : marks ⊆ operandEndings)
    (continues : Continues marks rest) (otherContinues : Continues marks otherRest)
    (same : expr.render.toList ++ rest = other.render.toList ++ otherRest) :
    expr = other ∧ rest = otherRest := by
  obtain ⟨words, rests⟩ := word_unique (atom.chars legible) (ends_word subset continues)
    (otherAtom.chars otherLegible) (ends_word subset otherContinues) same
  exact ⟨atom.injective legible otherAtom otherLegible (String.toList_injective words), rests⟩

/-- The text of an operation has a blank or a parenthesis after its first word. -/
theorem exists_word (op : Op) (legible : left.Legible) (right : Expr) :
    ∃ word char more, (binary op left right).render.toList = word ++ char :: more ∧
      (∀ letter ∈ word, isWordChar letter = true) ∧ (char = ' ' ∨ char = '(') := by
  rw [toList_render_binary]
  rcases left.atom_or_binary with atom | ⟨_, _, _, rfl⟩
  · rw [atom.operand]
    exact ⟨_, ' ', _, rfl, atom.chars legible, .inl rfl⟩
  · rw [toList_operand_binary]
    exact ⟨[], '(', _, rfl, by simp, .inr rfl⟩

/-- A literal or a name does not go on behind its only word. -/
theorem IsAtom.text_ne (atom : expr.IsAtom) (legible : expr.Legible)
    (subset : marks ⊆ operandEndings) (continues : Continues marks rest) {word more : List Char}
    {char : Char} (letters : ∀ letter ∈ word, isWordChar letter = true)
    (noLetter : isWordChar char = false) (noMark : char ∉ marks) :
    expr.render.toList ++ rest ≠ word ++ char :: more := by
  intro same
  obtain ⟨_, rests⟩ := word_unique (atom.chars legible) (ends_word subset continues) letters
    (by simpa using noLetter) same
  exact noMark (continues char (by rw [rests]; rfl))

private theorem IsAtom.render_ne (atom : expr.IsAtom) (legible : expr.Legible)
    (otherLegible : left.Legible) (continues : Continues endings rest) :
    expr.render.toList ++ rest ≠ (binary op left right).render.toList ++ otherRest := by
  obtain ⟨word, char, more, text, letters, blank⟩ := exists_word op otherLegible right
  rw [text, List.append_assoc, List.cons_append]
  refine atom.text_ne legible (List.subset_cons_self _ _) continues letters ?_ ?_
  · rcases blank with rfl | rfl <;> decide
  · rcases blank with rfl | rfl <;> decide

private theorem IsAtom.operand_ne (atom : expr.IsAtom) (legible : expr.Legible)
    (continues : Continues operandEndings rest) :
    expr.operand.toList ++ rest ≠ (binary op left right).operand.toList ++ otherRest := by
  rw [atom.operand, toList_operand_binary]
  have letters : ∀ letter ∈ ([] : List Char), isWordChar letter = true := by simp
  exact atom.text_ne legible (List.Subset.refl _) continues letters (by decide) (by decide)

private theorem Legible.opens (legible : expr.Legible) : Opens [] expr.render := by
  have nonempty : expr.render.toList ≠ [] := by
    cases expr with
    | int value =>
        cases value with
        | ofNat number =>
            rw [render, Int.repr, Nat.toList_repr]
            exact Nat.toDigits_ne_nil
        | negSucc number =>
            rw [render, toList_repr_negSucc]
            exact List.cons_ne_nil _ _
    | bool truth => cases truth <;> decide
    | var name =>
        exact fun empty => (legible_var.mp legible).nonempty (String.toList_injective empty)
    | binary op left right =>
        rw [toList_render_binary]
        exact List.append_ne_nil_of_right_ne_nil _ (List.cons_ne_nil _ _)
  obtain ⟨char, rest, chars⟩ := List.exists_cons_of_ne_nil nonempty
  exact ⟨char, rest, chars, List.not_mem_nil⟩

/-- The expression can be read off, alone and as an operand. -/
structure Readable (expr : Expr) : Prop where
  alone : Reads endings Legible render expr
  asOperand : Reads operandEndings Legible operand expr

private theorem IsAtom.readable (atom : expr.IsAtom) (legible : expr.Legible) : expr.Readable where
  alone := by
    intro other otherLegible rest otherRest continues otherContinues same
    rcases other.atom_or_binary with otherAtom | ⟨_, _, _, rfl⟩
    · exact atom.reads_atom legible otherAtom otherLegible (List.subset_cons_self _ _) continues
        otherContinues same
    · exact (atom.render_ne legible (legible_binary.mp otherLegible).1 continues same).elim
  asOperand := by
    intro other otherLegible rest otherRest continues otherContinues same
    rcases other.atom_or_binary with otherAtom | ⟨_, _, _, rfl⟩
    · rw [atom.operand, otherAtom.operand] at same
      exact atom.reads_atom legible otherAtom otherLegible (List.Subset.refl _) continues
        otherContinues same
    · exact (atom.operand_ne legible continues same).elim

/-- An operation is read off by reading off its operands. -/
theorem binary_alone (leftLegible : left.Legible) (leftReadable : left.Readable)
    (rightReadable : right.Readable) : Reads endings Legible render (binary op left right) := by
  intro other otherLegible rest otherRest continues otherContinues same
  rcases other.atom_or_binary with otherAtom | ⟨otherOp, otherLeft, otherRight, rfl⟩
  · exact (otherAtom.render_ne otherLegible leftLegible otherContinues same.symm).elim
  · obtain ⟨otherLeftLegible, otherRightLegible⟩ := legible_binary.mp otherLegible
    simp only [toList_render_binary, List.append_assoc, List.cons_append] at same
    obtain ⟨rfl, behindLeft⟩ := leftReadable.asOperand otherLeftLegible (.mark (by decide))
      (.mark (by decide)) same
    obtain ⟨rfl, behindOp⟩ := Op.symbol_unique (List.cons.inj behindLeft).2
    obtain ⟨rfl, rests⟩ := rightReadable.asOperand otherRightLegible
      (continues.mono (List.subset_cons_self _ _)) (otherContinues.mono (List.subset_cons_self _ _))
      behindOp
    exact ⟨rfl, rests⟩

/-- In parentheses an operation can be read off as it can alone. -/
theorem binary_asOperand (alone : Reads endings Legible render (binary op left right)) :
    Reads operandEndings Legible operand (binary op left right) := by
  intro other otherLegible rest otherRest continues otherContinues same
  rcases other.atom_or_binary with otherAtom | ⟨otherOp, otherLeft, otherRight, rfl⟩
  · exact (otherAtom.operand_ne otherLegible otherContinues same.symm).elim
  · simp only [toList_operand_binary, List.append_assoc, List.cons_append] at same
    obtain ⟨equal, rests⟩ := alone otherLegible (.mark (by decide)) (.mark (by decide))
      (List.cons.inj same).2
    exact ⟨equal, (List.cons.inj rests).2⟩

private theorem Legible.readable (legible : expr.Legible) : expr.Readable := by
  induction expr with
  | int _ | bool _ | var _ => exact IsAtom.readable trivial legible
  | binary op left right leftReadable rightReadable =>
      obtain ⟨leftLegible, rightLegible⟩ := legible_binary.mp legible
      have alone : Reads endings Legible render (binary op left right) :=
        binary_alone leftLegible (leftReadable leftLegible) (rightReadable rightLegible)
      exact ⟨alone, binary_asOperand alone⟩

private theorem Legible.render_injective (legible : expr.Legible) (otherLegible : other.Legible)
    (same : expr.render = other.render) : expr = other :=
  Reads.injective legible.readable.alone otherLegible same

end Expr

end Static

/-! ## Types -/

namespace Ty

variable {owner : Nat} {ty other : Ty}

/-- No type variable of another owner, no type without values, and no name that is not an identifier
stands in the type. -/
inductive Legible (owner : Nat) : Ty → Prop
  | bit : Legible owner .bit
  | bits {width : Static.Expr} (legible : width.Legible) : Legible owner (.bits width)
  | product {members : List Ty} (legible : ∀ member ∈ members, Legible owner member) :
      Legible owner (.product members)
  | var {id : TyVar} (owned : id.owner = owner) : Legible owner (.var id)

private theorem renderAll_eq_map (tys : List Ty) : renderAll tys = tys.map render := by
  induction tys with
  | nil => rfl
  | cons ty tys ih => rw [renderAll, ih, List.map_cons]

/-- What stands behind a type. -/
def endings : List Char := [',', ')']

/-! ### Texts -/

private theorem toList_render_bit : Ty.bit.render.toList = ['b', 'i', 't'] := by decide

private theorem toList_render_bits (width : Static.Expr) :
    (Ty.bits width).render.toList = 'b' :: 'i' :: 't' :: '[' :: (width.render.toList ++ [']']) := by
  have opening : "bit[".toList = ['b', 'i', 't', '['] := by decide
  have closing : "]".toList = [']'] := by decide
  simp only [render, String.toList_append, opening, closing, List.cons_append, List.nil_append]

private theorem toList_render_product (members : List Ty) : (Ty.product members).render.toList =
    '(' :: ((separated ", " (members.map render)).toList ++ [')']) := by
  have opening : "(".toList = ['('] := by decide
  have closing : ")".toList = [')'] := by decide
  simp only [render, appendSeparated, renderAll_eq_map, String.toList_append, opening, closing,
    List.cons_append, List.nil_append]

private theorem toList_render_var (id : TyVar) :
    (Ty.var id).render.toList = '\'' :: 't' :: id.index.repr.toList := by
  have opening : "'t".toList = ['\'', 't'] := by decide
  simp only [render, String.toList_append, opening, List.cons_append, List.nil_append]

private theorem Legible.opens (legible : ty.Legible owner) : Opens [')'] ty.render := by
  cases legible with
  | bit => exact ⟨_, _, toList_render_bit, by decide⟩
  | bits _ => exact ⟨_, _, toList_render_bits _, by decide⟩
  | product _ => exact ⟨_, _, toList_render_product _, by decide⟩
  | var _ => exact ⟨_, _, toList_render_var _, by decide⟩

private theorem noBracket {rest : List Char} : ¬ Continues endings ('[' :: rest) := by
  intro continues
  exact absurd (continues '[' rfl) (by decide)

private theorem ends_digits {rest : List Char} (continues : Continues endings rest) :
    ∀ char ∈ rest.head?, char.isDigit = false := by
  have noDigit : ∀ char ∈ endings, char.isDigit = false := forall_mem_of_all (by decide)
  exact fun char first => noDigit char (continues char first)

/-- A type can be read off: its first characters tell the cases apart, and only the text of a bus
begins like that of a single bit. -/
theorem Legible.reads (legible : ty.Legible owner) : Reads endings (Legible owner) render ty := by
  induction legible with
  | bit =>
      intro other otherLegible rest otherRest continues otherContinues same
      rw [toList_render_bit] at same
      cases otherLegible with
      | bit => exact ⟨rfl, List.append_cancel_left same⟩
      | bits _ =>
          simp only [toList_render_bits, List.cons_append, List.nil_append, List.cons.injEq,
            true_and] at same
          exact (noBracket (same ▸ continues)).elim
      | product _ => simp [toList_render_product] at same
      | var _ => simp [toList_render_var] at same
  | bits widthLegible =>
      intro other otherLegible rest otherRest continues otherContinues same
      rw [toList_render_bits] at same
      cases otherLegible with
      | bit =>
          simp only [toList_render_bit, List.cons_append, List.nil_append, List.cons.injEq,
            true_and] at same
          exact (noBracket (same ▸ otherContinues)).elim
      | bits otherWidthLegible =>
          simp only [toList_render_bits, List.cons_append, List.append_assoc, List.nil_append,
            List.cons.injEq, true_and] at same
          obtain ⟨rfl, rests⟩ := widthLegible.readable.alone otherWidthLegible (.mark (by decide))
            (.mark (by decide)) same
          exact ⟨rfl, (List.cons.inj rests).2⟩
      | product _ => simp [toList_render_product] at same
      | var _ => simp [toList_render_var] at same
  | product membersLegible ih =>
      intro other otherLegible rest otherRest continues otherContinues same
      rw [toList_render_product] at same
      cases otherLegible with
      | bit => simp [toList_render_bit] at same
      | bits _ => simp [toList_render_bits] at same
      | product othersLegible =>
          simp only [toList_render_product, List.cons_append, List.append_assoc, List.nil_append,
            List.cons.injEq, true_and] at same
          obtain ⟨rfl, rests⟩ := separated_reads (by decide) (by decide) (by decide)
            (fun _ => Legible.opens) membersLegible ih othersLegible (.mark (by decide))
            (.mark (by decide)) same
          exact ⟨rfl, (List.cons.inj rests).2⟩
      | var _ => simp [toList_render_var] at same
  | @var id owned =>
      intro other otherLegible rest otherRest continues otherContinues same
      rw [toList_render_var] at same
      cases otherLegible with
      | bit => simp [toList_render_bit] at same
      | bits _ => simp [toList_render_bits] at same
      | product _ => simp [toList_render_product] at same
      | @var otherId otherOwned =>
          simp only [toList_render_var, List.cons_append, List.cons.injEq, true_and] at same
          obtain ⟨digits, rests⟩ := word_unique (fun _ => isDigit_of_mem_repr)
            (ends_digits continues) (fun _ => isDigit_of_mem_repr) (ends_digits otherContinues) same
          have index : id.index = otherId.index := repr_injective (String.toList_injective digits)
          obtain ⟨idOwner, idIndex⟩ := id
          obtain ⟨otherOwner, otherIndex⟩ := otherId
          obtain rfl : idIndex = otherIndex := index
          obtain rfl : idOwner = otherOwner := owned.trans otherOwned.symm
          exact ⟨rfl, rests⟩

/-- Legible types with the same text are the same. -/
theorem Legible.render_injective (legible : ty.Legible owner) (otherLegible : other.Legible owner)
    (same : ty.render = other.render) : ty = other :=
  Reads.injective legible.reads otherLegible same

end Ty

/-! ## Signatures -/

namespace Signature

variable {owner : Nat} {signature other : Signature}

/-- All names are identifiers, and all types are legible. -/
structure Legible (owner : Nat) (signature : Signature) : Prop where
  params : ∀ name ∈ signature.params, IsIdentifier name
  inputs : ∀ ty ∈ signature.inputs, ty.Legible owner
  outputs : ∀ ty ∈ signature.outputs, ty.Legible owner
  constraints : ∀ expr ∈ signature.constraints, expr.Legible

private theorem name_reads {name : String} (identifier : IsIdentifier name) :
    Reads [',', '>'] IsIdentifier id name := by
  have ends {rest : List Char} (continues : Continues [',', '>'] rest) :
      ∀ char ∈ rest.head?, isNameChar char = false := by
    have noLetter : ∀ char ∈ [',', '>'], isNameChar char = false := forall_mem_of_all (by decide)
    exact fun char first => noLetter char (continues char first)
  intro other otherIdentifier rest otherRest continues otherContinues same
  obtain ⟨names, rests⟩ := word_unique identifier.chars (ends continues) otherIdentifier.chars
    (ends otherContinues) same
  exact ⟨String.toList_injective names, rests⟩

private theorem name_opens {name : String} (identifier : IsIdentifier name) : Opens ['>'] name := by
  obtain ⟨char, rest, chars⟩ := exists_cons_of_ne identifier.nonempty
  refine ⟨char, rest, chars, fun mark => ?_⟩
  have letter := identifier.chars char (by rw [chars]; exact List.mem_cons_self)
  rw [List.mem_singleton.mp mark] at letter
  revert letter
  decide

/-- The text of the parameters. -/
def paramsText (params : List String) : String :=
  if params.isEmpty then "" else appendSeparated "<" ", " params ++ ">"

/-- The text of the conditions. -/
def conditionsText (constraints : List Static.Expr) : String :=
  if constraints.isEmpty then ""
  else appendSeparated " where " ", " (constraints.map (·.render))

private theorem toList_render (signature : Signature) : signature.render.toList =
    (paramsText signature.params).toList ++
      '(' :: ((separated ", " (signature.inputs.map Ty.render)).toList ++
        ')' :: ' ' :: '-' :: '>' :: ' ' ::
      '(' :: ((separated ", " (signature.outputs.map Ty.render)).toList ++
        ')' :: (conditionsText signature.constraints).toList)) := by
  have opening : "(".toList = ['('] := by decide
  have closing : ")".toList = [')'] := by decide
  have arrow : " -> (".toList = [' ', '-', '>', ' ', '('] := by decide
  simp only [render, paramsText, conditionsText, appendSeparated, Ty.renderAll_eq_map,
    String.toList_append, opening, closing, arrow, List.cons_append, List.append_assoc,
    List.nil_append]

private theorem toList_paramsText_cons (name : String) (names : List String) :
    (paramsText (name :: names)).toList =
      '<' :: ((separated ", " (name :: names)).toList ++ ['>']) := by
  have opening : "<".toList = ['<'] := by decide
  have closing : ">".toList = ['>'] := by decide
  rw [paramsText, if_neg (by simp), appendSeparated, String.toList_append, String.toList_append,
    opening, closing]
  rfl

private theorem toList_conditionsText_cons (expr : Static.Expr) (exprs : List Static.Expr) :
    (conditionsText (expr :: exprs)).toList =
      " where ".toList ++ (separated ", " ((expr :: exprs).map (·.render))).toList := by
  rw [conditionsText, if_neg (by simp), appendSeparated, String.toList_append]

/-- The parameters end before the parenthesis of the inputs. -/
theorem paramsText_reads {names others : List String} {rest otherRest : List Char}
    (identifiers : ∀ name ∈ names, IsIdentifier name)
    (otherIdentifiers : ∀ name ∈ others, IsIdentifier name)
    (same : (paramsText names).toList ++ '(' :: rest = (paramsText others).toList ++ '(' :: otherRest) :
    names = others ∧ rest = otherRest := by
  have empty : (paramsText []).toList = [] := rfl
  cases names with
  | nil =>
      cases others with
      | nil => exact ⟨rfl, (List.cons.inj same).2⟩
      | cons other others => simp [empty, toList_paramsText_cons] at same
  | cons name names =>
      cases others with
      | nil => simp [empty, toList_paramsText_cons] at same
      | cons other others =>
          simp only [toList_paramsText_cons, List.cons_append, List.append_assoc, List.nil_append,
            List.cons.injEq, true_and] at same
          have items : (separated ", " ((name :: names).map id)).toList ++ '>' :: '(' :: rest =
              (separated ", " ((other :: others).map id)).toList ++ '>' :: '(' :: otherRest := by
            rw [List.map_id, List.map_id]
            exact same
          obtain ⟨equal, rests⟩ := separated_reads (by decide) (by decide) (by decide)
            (fun _ => name_opens) identifiers (fun _ inside => name_reads (identifiers _ inside))
            otherIdentifiers (.mark (by decide)) (.mark (by decide)) items
          exact ⟨equal, (List.cons.inj (List.cons.inj rests).2).2⟩

private theorem conditionsText_injective {exprs others : List Static.Expr}
    (legible : ∀ expr ∈ exprs, expr.Legible) (otherLegible : ∀ expr ∈ others, expr.Legible)
    (same : (conditionsText exprs).toList = (conditionsText others).toList) : exprs = others := by
  have empty : (conditionsText []).toList = [] := rfl
  cases exprs with
  | nil =>
      cases others with
      | nil => rfl
      | cons other others => simp [empty, toList_conditionsText_cons] at same
  | cons expr exprs =>
      cases others with
      | nil => simp [empty, toList_conditionsText_cons] at same
      | cons other others =>
          rw [toList_conditionsText_cons, toList_conditionsText_cons] at same
          have items : (separated ", " ((expr :: exprs).map (·.render))).toList ++ [] =
              (separated ", " ((other :: others).map (·.render))).toList ++ [] := by
            rw [List.append_cancel_left same]
          exact (separated_reads (by decide) (by decide) (by decide)
            (fun _ => Static.Expr.Legible.opens) legible
            (fun _ inside => (legible _ inside).readable.alone) otherLegible .nil .nil items).1

private theorem Legible.render_injective (legible : signature.Legible owner)
    (otherLegible : other.Legible owner) (same : signature.render = other.render) :
    signature = other := by
  have chars := congrArg String.toList same
  rw [toList_render, toList_render] at chars
  obtain ⟨params, chars⟩ := paramsText_reads legible.params otherLegible.params chars
  have types {tys others : List Ty} {rest otherRest : List Char}
      (legible : ∀ ty ∈ tys, ty.Legible owner) (otherLegible : ∀ ty ∈ others, ty.Legible owner)
      (same : (separated ", " (tys.map Ty.render)).toList ++ ')' :: rest =
        (separated ", " (others.map Ty.render)).toList ++ ')' :: otherRest) :
      tys = others ∧ rest = otherRest := by
    obtain ⟨equal, rests⟩ := separated_reads (by decide) (by decide) (by decide)
      (fun _ => Ty.Legible.opens) legible (fun _ inside => (legible _ inside).reads) otherLegible
      (.mark (by decide)) (.mark (by decide)) same
    exact ⟨equal, (List.cons.inj rests).2⟩
  obtain ⟨inputs, chars⟩ := types legible.inputs otherLegible.inputs chars
  simp only [List.cons.injEq, true_and] at chars
  obtain ⟨outputs, chars⟩ := types legible.outputs otherLegible.outputs chars
  have constraints := conditionsText_injective legible.constraints otherLegible.constraints chars
  obtain ⟨_, _, _, _⟩ := signature
  obtain ⟨_, _, _, _⟩ := other
  simp only [mk.injEq]
  exact ⟨inputs, outputs, params, constraints⟩

end Signature

/-- **Rendered text determines what it renders.**  If two static expressions with identifiers for
names have the same text, they are the same.  So are two types of this kind in which the type without
values does not stand and whose variables have one owner, and so are two signatures of such
parameters, types and conditions. -/
theorem render_determines (owner : Nat) :
    (∀ expr other : Static.Expr, expr.Legible → other.Legible →
      expr.render = other.render → expr = other) ∧
    (∀ ty other : Ty, ty.Legible owner → other.Legible owner →
      ty.render = other.render → ty = other) ∧
    ∀ signature other : Signature, signature.Legible owner → other.Legible owner →
      signature.render = other.render → signature = other :=
  ⟨fun _ _ legible otherLegible => legible.render_injective otherLegible,
    fun _ _ legible otherLegible => legible.render_injective otherLegible,
    fun _ _ legible otherLegible => legible.render_injective otherLegible⟩

/-- Where the parentheses of a difference stand can be seen in the text of a signature. -/
theorem render_determines_differences :
    let minus (left right : Static.Expr) : Static.Expr := .binary .sub left right
    let port (width : Static.Expr) : Signature :=
      ⟨[.bits width], [.product [.bit, .var ⟨0, 1⟩], .product []], ["n", "$w0"],
        [.binary .le (.int 0) width]⟩
    let left := port (minus (minus (.var "n") (.var "$w0")) (.int (-1)))
    let right := port (minus (.var "n") (minus (.var "$w0") (.int (-1))))
    left.Legible 0 ∧ right.Legible 0 ∧ left.render ≠ right.render := by
  intro minus port left right
  have names : Static.Expr.Legible (.var "n") ∧ Static.Expr.Legible (.var "$w0") :=
    ⟨Static.Expr.legible_var.mpr (by decide), Static.Expr.legible_var.mpr (by decide)⟩
  have params : ∀ name ∈ ["n", "$w0"], IsIdentifier name := by decide
  have legible {width : Static.Expr} (widthLegible : width.Legible) : (port width).Legible 0 := by
    refine ⟨params, fun ty inside => ?_, fun ty inside => ?_, fun expr inside => ?_⟩
    · rw [List.mem_singleton.mp inside]
      exact .bits widthLegible
    · rcases List.mem_cons.mp inside with rfl | inside
      · exact .product (List.forall_mem_cons.mpr ⟨.bit, List.forall_mem_singleton.mpr (.var rfl)⟩)
      · rw [List.mem_singleton.mp inside]
        exact .product fun member inside => absurd inside List.not_mem_nil
    · rw [List.mem_singleton.mp inside]
      exact Static.Expr.legible_binary.mpr ⟨Static.Expr.legible_int, widthLegible⟩
  have leftLegible : left.Legible 0 := legible (Static.Expr.legible_binary.mpr
    ⟨Static.Expr.legible_binary.mpr names, Static.Expr.legible_int⟩)
  have rightLegible : right.Legible 0 := legible (Static.Expr.legible_binary.mpr
    ⟨names.1, Static.Expr.legible_binary.mpr ⟨names.2, Static.Expr.legible_int⟩⟩)
  have different : left ≠ right := by decide
  exact ⟨leftLegible, rightLegible, fun same =>
    different ((render_determines 0).2.2 left right leftLegible rightLegible same)⟩

end CircuitWidths
