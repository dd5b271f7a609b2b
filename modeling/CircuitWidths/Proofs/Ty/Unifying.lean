import CircuitWidths.Proofs.Courses
import CircuitWidths.Ty.Unify

/-!
# Courses of unification

Unification follows links to the heads of two types, links variables, equates widths and goes on with
members.  If these steps stay on a course, then unification does, however deep it goes and whether it
succeeds or not (`Unification.Keeps.unifyWithin_stays`).
-/

namespace CircuitWidths

namespace Unification

open TypeStore

/-- What unification does with two heads; members of products are left to another step. -/
def unifyHeads (unifyPair : Ty → Ty → UnifyM Unit) : Ty → Ty → UnifyM Unit
  | .var left, .var right => if left = right then pure () else bindVar right (.var left)
  | found, .var id => bindVar id found
  | .var id, expected => bindVar id expected
  | .unit, .unit => pure ()
  | .bit, .bit => pure ()
  | .bit, .bits width => equate width (.int 1)
  | .bits width, .bit => equate width (.int 1)
  | .bits left, .bits right => equate left right
  | .product lefts, .product rights =>
    if lefts.length = rights.length then
      (lefts.zip rights).forM fun pair => unifyPair pair.1 pair.2
    else
      throw (.resultArity lefts.length rights.length)
  | _, _ => throw .mismatch

/-- Lists of the same length are gone through pair by pair. -/
theorem unifyPairs_eq_forM (unifyPair : Ty → Ty → UnifyM Unit) {lefts rights : List Ty}
    (even : lefts.length = rights.length) :
    unifyPairs unifyPair lefts rights =
      (lefts.zip rights).forM fun pair => unifyPair pair.1 pair.2 := by
  induction lefts generalizing rights with
  | nil =>
      obtain rfl := List.length_eq_zero_iff.mp even.symm
      rfl
  | cons left lefts ih =>
      obtain ⟨right, others, rfl⟩ := List.exists_cons_of_length_eq_add_one even.symm
      rw [unifyPairs, ih (Nat.succ.inj even)]
      rfl

/-- One level of unification: links are followed from both types, then the heads meet. -/
theorem unifyWithin_succ (levels : Nat) (found expected : Ty) :
    unifyWithin (levels + 1) found expected = (do
      let foundHead ← onTypes (representative found)
      let expectedHead ← onTypes (representative expected)
      unifyHeads (unifyWithin levels) foundHead expectedHead) := by
  rw [unifyWithin]
  refine bind_congr fun foundHead => bind_congr fun expectedHead => ?_
  cases foundHead with
  | product lefts =>
      cases expectedHead with
      | product rights =>
          rw [unifyHeads]
          by_cases even : lefts.length = rights.length
          · simp only [if_pos even, unifyPairs_eq_forM _ even]
          · simp only [if_neg even]
      | unit | bit | bits _ | var _ => rfl
  | unit | bit | bits _ | var _ => cases expectedHead <;> rfl

/-- The steps that unification takes with allowed types stay on the course, and it may be refused. -/
structure Keeps (course : Course UnifyError Unification) (allowed : Ty → Prop) : Prop where
  members : ∀ {members}, allowed (.product members) → ∀ member ∈ members, allowed member
  refuses : ∀ {state error}, course.holds state → error ≠ .fault .unevenLists →
    course.fails state error state
  representative : ∀ {state ty}, course.holds state → allowed ty →
    Stays course (onTypes (representative ty)) state fun head _ => allowed head
  bindVar : ∀ {state id ty}, course.holds state → allowed (.var id) → allowed ty →
    Stays course (bindVar id ty) state fun _ _ => True
  equate : ∀ {state left right}, course.holds state → allowed (.bits left) →
    allowed (.bits right) → Stays course (equate left right) state fun _ _ => True
  equateOne : ∀ {state width}, course.holds state → allowed (.bits width) →
    Stays course (Unification.equate width (.int 1)) state fun _ _ => True

namespace Keeps

variable {course : Course UnifyError Unification} {allowed : Ty → Prop} {state : Unification}
  {found expected : Ty}

private theorem refuse (keeps : Keeps course allowed) {error : UnifyError}
    (holds : course.holds state) (other : error ≠ .fault .unevenLists) :
    Stays course (throw error : UnifyM Unit) state fun _ _ => True :=
  .throw (keeps.refuses holds other)

/-- What unification does with two heads stays on the course if what it does with members does. -/
theorem unifyHeads_stays (keeps : Keeps course allowed) {unifyPair : Ty → Ty → UnifyM Unit}
    (pairs : ∀ {state found expected}, course.holds state → allowed found → allowed expected →
      Stays course (unifyPair found expected) state fun _ _ => True)
    (holds : course.holds state) (foundAllowed : allowed found)
    (expectedAllowed : allowed expected) :
    Stays course (unifyHeads unifyPair found expected) state fun _ _ => True := by
  unfold unifyHeads
  split
  · split
    · exact .pure holds trivial
    · exact keeps.bindVar holds expectedAllowed foundAllowed
  · exact keeps.bindVar holds expectedAllowed foundAllowed
  · exact keeps.bindVar holds foundAllowed expectedAllowed
  · exact .pure holds trivial
  · exact .pure holds trivial
  · exact keeps.equateOne holds expectedAllowed
  · exact keeps.equateOne holds foundAllowed
  · exact keeps.equate holds foundAllowed expectedAllowed
  · split
    · refine (Stays.forM (fun _ _ => trivial) state holds fun pair inside _ holds _ =>
        pairs holds (keeps.members foundAllowed pair.1 ?_)
          (keeps.members expectedAllowed pair.2 ?_)).imp fun _ _ _ _ _ => trivial
      · exact (List.of_mem_zip inside).1
      · exact (List.of_mem_zip inside).2
    · exact keeps.refuse holds (by simp)
  · exact keeps.refuse holds (by simp)

/-- Unification of allowed types stays on the course, however deep it goes. -/
theorem unifyWithin_stays (keeps : Keeps course allowed) (limit : Nat) :
    ∀ {state : Unification} {found expected : Ty}, course.holds state → allowed found →
      allowed expected → Stays course (unifyWithin limit found expected) state fun _ _ => True := by
  induction limit with
  | zero => exact fun holds _ _ => keeps.refuse holds (by simp)
  | succ limit ih =>
      intro state found expected holds foundAllowed expectedAllowed
      rw [unifyWithin_succ]
      refine .bind (keeps.representative holds foundAllowed) fun foundHead _ holds _ foundHeads => ?_
      refine .bind (keeps.representative holds expectedAllowed)
        fun expectedHead _ holds _ expectedHeads => ?_
      exact keeps.unifyHeads_stays ih holds foundHeads expectedHeads

end Keeps

end Unification

end CircuitWidths
