import DynamicDispatch.Proofs.Task.Courses
import Mathlib.Logic.Function.Basic
import Mathlib.Order.CompletePartialOrder
import Mathlib.Order.Interval.Set.Disjoint

/-!
# Tasks whose effects do not depend on each other's

Tasks that share a world go their courses there, each a step at a time and in any order. They are
independent when there is, for each of them, a notion of agreement between the world that it would have
made for itself and the one that all of them have made, such that a step in worlds that agree does the
same, and a step of one task leaves the agreement of the others. Every task then makes the steps that it
would make alone. A notion of agreement may speak of the identities that the task itself has taken, such
as those of the mailboxes of parallel tasks inside it: no two tasks take the same.
-/

namespace DynamicDispatch

variable {C S : Type}

/-- What a step of a child leaves to the scheduler: the children that were started are taken over, the
mailbox of the parent is as it was, and no child has been given a place in it. -/
structure LeavesAside (box : Nat) (w : World C S) (c : Course C) (w' : World C S) : Prop where
  nextId_le : w.nextId ≤ w'.nextId
  started : w.started = [] → w'.started = []
  mailbox : w'.mailboxes.get? box = w.mailboxes.get? box
  elsewhere : ∀ child ∈ c.children, child.mailbox ≠ box

/-- The world of all agrees with the one that a strand has made for itself, given the identities that the
strand has taken. They lie between the identity under which the mailbox of the parent is and the next
one. -/
structure Agreeing (box : Nat) (agree : Nat → Set Nat → Strand C S → World C S → Prop) (i : Nat)
    (own : Set Nat) (x : Strand C S) (w : World C S) : Prop where
  agree : agree i own x w
  box_lt : box < w.nextId
  nextId_le : x.world.nextId ≤ w.nextId
  own : own ⊆ Set.Ioo box w.nextId

variable {box : Nat} {agree : Nat → Set Nat → Strand C S → World C S → Prop} {strands : List (Strand C S)}
  {w : World C S} {i : Nat} {x : Strand C S}

/-- After a step, the strand agrees with what it has taken more. -/
theorem Agreeing.next {own : Set Nat} (h : Agreeing box agree i own x w) {c : Course C} {u w' : World C S}
    (hid : w'.nextId = u.nextId) (hle : w.nextId ≤ w'.nextId)
    (hagree : agree i (own ∪ Set.Ico w.nextId w'.nextId) ⟨c, u⟩ w') :
    Agreeing box agree i (own ∪ Set.Ico w.nextId w'.nextId) ⟨c, u⟩ w' := by
  refine ⟨hagree, Nat.lt_of_lt_of_le h.box_lt hle, Nat.le_of_eq hid.symm, Set.union_subset ?_ ?_⟩
  · exact h.own.trans (Set.Ioo_subset_Ioo_right hle)
  · exact Set.Ico_subset_Ioo_left h.box_lt

/-- A strand that has done nothing may still agree when the world has changed. -/
theorem Agreeing.of_le {own : Set Nat} (h : Agreeing box agree i own x w) {w' : World C S}
    (hle : w.nextId ≤ w'.nextId) (hagree : agree i own x w') : Agreeing box agree i own x w' :=
  ⟨hagree, Nat.lt_of_lt_of_le h.box_lt hle, Nat.le_trans h.nextId_le hle,
    h.own.trans (Set.Ioo_subset_Ioo_right hle)⟩

/-- What a strand takes now, no other has taken. -/
theorem Agreeing.disjoint_Ico {own : Set Nat} (h : Agreeing box agree i own x w) (n : Nat) :
    Disjoint (Set.Ico w.nextId n) own :=
  Set.disjoint_left.mpr fun _ hnew hown => Nat.not_lt.mpr hnew.1 (h.own hown).2

/-- Strands, by the positions of their tasks, each of which agrees with the world of all of them and has
taken identities that no other has. -/
structure Apart (box : Nat) (agree : Nat → Set Nat → Strand C S → World C S → Prop)
    (strands : List (Strand C S)) (w : World C S) : Prop where
  agreeing : ∃ own : Nat → Set Nat,
    (∀ {i x}, strands[i]? = some x → Agreeing box agree i (own i) x w) ∧
    ∀ {i j x y}, strands[i]? = some x → strands[j]? = some y → i ≠ j → Disjoint (own i) (own j)
  started : w.started = []

/-- Each of the strands agrees with the world of all. -/
theorem Apart.exists_agreeing (h : Apart box agree strands w) (hi : strands[i]? = some x) :
    ∃ own, Agreeing box agree i own x w := by
  obtain ⟨own, hagreeing, -⟩ := h.agreeing
  exact ⟨own i, hagreeing hi⟩

/-- The identities that a strand has taken are behind. -/
theorem Apart.nextId_le (h : Apart box agree strands w) (hi : strands[i]? = some x) :
    x.world.nextId ≤ w.nextId := by
  obtain ⟨own, hagreeing⟩ := h.exists_agreeing hi
  exact hagreeing.nextId_le

/-- What is found in a list of which one member was replaced. -/
theorem eq_or_of_getElem?_set {α : Type} {l : List α} {i j : Nat} {a b : α}
    (h : (l.set i a)[j]? = some b) : (i = j ∧ b = a) ∨ (i ≠ j ∧ l[j]? = some b) := by
  rw [List.getElem?_set] at h
  split at h
  · next heq =>
    split at h
    · exact .inl ⟨heq, (Option.some.inj h).symm⟩
    · cases h
  · next hne => exact .inr ⟨hne, h⟩

variable [Embedding C S] {watch : Func C → Bool}

/-- The effects of tasks do not depend on each other's, given for each of them and the identities that it
has taken when the world of all agrees with the one that it has made for itself. The mailbox of their parent
is under `box`. -/
structure Independent (watch : Func C → Bool) (box : Nat)
    (agree : Nat → Set Nat → Strand C S → World C S → Prop) : Prop where
  /-- A step does in worlds that agree what it does alone, and takes the same identities. -/
  alike : ∀ {i own x w}, Agreeing box agree i own x w → ∀ {calls r u},
    x.course.step.Shows watch (x.world.taken w.nextId) calls r u →
      ∃ w', x.course.step.Shows watch w calls r w' ∧ w'.nextId = u.nextId ∧
        ∀ c, r = .ok (.inr c) → agree i (own ∪ Set.Ico w.nextId w'.nextId) ⟨c, u⟩ w'
  /-- A step leaves the agreement of the others, which have taken other identities. -/
  apart : ∀ {i j own other x y w}, Agreeing box agree i own x w → Agreeing box agree j other y w → i ≠ j →
    Disjoint own other → ∀ {calls c w'}, x.course.step.Shows watch w calls (.ok (.inr c)) w' →
      agree j other y w'
  /-- Identities that others take and what is in the mailbox of the parent do not matter. -/
  aside : ∀ {i own x w n boxes}, Agreeing box agree i own x w → w.nextId ≤ n →
    (∀ other, other ≠ box → boxes.get? other = w.mailboxes.get? other) →
      agree i own x { w with nextId := n, mailboxes := boxes }
  /-- A step leaves aside what the scheduler keeps. -/
  leaves : ∀ {i own x w}, Agreeing box agree i own x w → ∀ {calls c w'},
    x.course.step.Shows watch w calls (.ok (.inr c)) w' → LeavesAside box w c w'

/-- A step that a strand would make alone, it makes in the world of all, and they stay apart. -/
theorem Apart.next (hind : Independent watch box agree) (h : Apart box agree strands w)
    (hi : strands[i]? = some x) {calls : List (SeenCall C)} {c : Course C} {u : World C S}
    (hstep : x.course.step.Shows watch (x.world.taken w.nextId) calls (.ok (.inr c)) u) :
    ∃ w', x.course.step.Shows watch w calls (.ok (.inr c)) w' ∧
      Apart box agree (strands.set i ⟨c, u⟩) w' ∧ LeavesAside box w c w' := by
  obtain ⟨own, hagreeing, hdisjoint⟩ := h.agreeing
  obtain ⟨w', hshows, hid, hagree⟩ := hind.alike (hagreeing hi) hstep
  have hleaves := hind.leaves (hagreeing hi) hshows
  let own' := Function.update own i (own i ∪ Set.Ico w.nextId w'.nextId)
  have hself : own' i = own i ∪ Set.Ico w.nextId w'.nextId := Function.update_self ..
  have hother : ∀ {j}, i ≠ j → own' j = own j := fun hne => Function.update_of_ne (Ne.symm hne) ..
  have hnew : ∀ {j y}, strands[j]? = some y → i ≠ j → Disjoint (own' i) (own' j) := by
    intro j y hj hne
    rw [hself, hother hne]
    exact Disjoint.union_left (hdisjoint hi hj hne) ((hagreeing hj).disjoint_Ico _)
  refine ⟨w', hshows, ⟨⟨own', ?_, ?_⟩, hleaves.started h.started⟩, hleaves⟩
  · intro j y hj
    rcases eq_or_of_getElem?_set hj with ⟨rfl, rfl⟩ | ⟨hne, hj⟩
    · rw [hself]
      exact (hagreeing hi).next hid hleaves.nextId_le (hagree c rfl)
    · rw [hother hne]
      exact (hagreeing hj).of_le hleaves.nextId_le
        (hind.apart (hagreeing hi) (hagreeing hj) hne (hdisjoint hi hj hne) hshows)
  · intro j k y z hj hk hjk
    rcases eq_or_of_getElem?_set hj with ⟨rfl, -⟩ | ⟨hij, hj⟩ <;>
      rcases eq_or_of_getElem?_set hk with ⟨rfl, -⟩ | ⟨hik, hk⟩
    · exact absurd rfl hjk
    · exact hnew hk hik
    · exact (hnew hj hij).symm
    · rw [hother hij, hother hik]
      exact hdisjoint hj hk hjk

/-- The scheduler may take identities and use the mailbox of the parent. -/
theorem Apart.aside (hind : Independent watch box agree) (h : Apart box agree strands w) {n : Nat}
    (hn : w.nextId ≤ n) {boxes : Table Nat (Mailbox C)}
    (hboxes : ∀ other, other ≠ box → boxes.get? other = w.mailboxes.get? other) :
    Apart box agree strands { w with nextId := n, mailboxes := boxes } := by
  obtain ⟨own, hagreeing, hdisjoint⟩ := h.agreeing
  refine ⟨⟨own, fun hi => ?_, hdisjoint⟩, h.started⟩
  exact (hagreeing hi).of_le hn (hind.aside (hagreeing hi) hn hboxes)

/-- After a lap, a schedule gets further when its course goes on. -/
theorem Course.canAdvance_eq_isRight {main : Turn C} {turned : List (Child C)}
    {r : Option (Outcome (Value C)) ⊕ Course C} {calls : List (SeenCall C)} {w' : World C S}
    (hstep : (under ⟨main, [], turned⟩).step.Shows watch w calls (.ok r) w') :
    Schedule.canAdvance w ⟨main, [], turned⟩ = r.isRight := by
  obtain ⟨r', hshows, hr⟩ := Action.shows_bind_pure_iff.mp hstep
  cases hadvance : Schedule.canAdvance w ⟨main, [], turned⟩ with
  | false =>
    obtain ⟨-, rfl, -⟩ := (Schedule.shows_step_nil_over_iff hadvance).mp hshows
    cases hr
    rfl
  | true =>
    obtain ⟨e | turn, -, rfl⟩ := (Schedule.shows_step_nil_iff hadvance).mp hshows <;> cases hr
    rfl

/-- After a lap, a strand gets further in the world of all if it does so alone. -/
theorem Apart.canAdvance_eq (hind : Independent watch box agree) (h : Apart box agree strands w)
    {main : Turn C} {turned : List (Child C)} {u : World C S}
    (hi : strands[i]? = some ⟨.under ⟨main, [], turned⟩, u⟩)
    (hsettles : Strand.Settles watch ⟨.under ⟨main, [], turned⟩, u⟩) :
    Schedule.canAdvance w ⟨main, [], turned⟩ = Schedule.canAdvance u ⟨main, [], turned⟩ := by
  obtain ⟨calls, r, u', hstep, -⟩ := hsettles.ends (h.nextId_le hi)
  obtain ⟨own, hagreeing⟩ := h.exists_agreeing hi
  obtain ⟨w', hshows, -, -⟩ := hind.alike hagreeing hstep
  rw [Course.canAdvance_eq_isRight hshows, ← Course.canAdvance_eq_isRight hstep,
    Schedule.canAdvance_taken]

end DynamicDispatch
