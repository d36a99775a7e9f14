import DynamicDispatch.Proofs.Task.Courses

/-!
# Laps of a parallel task

While the children of a parallel task take their turns, everything that they start belongs to one of them.
A child in the schedule stands beside the position of the child of the parallel task that it belongs to, its
owner, and so does a turn that was taken. Forgetting the owners gives the schedule as it is driven. What
belongs to one owner is, between two turns, in one of two states, compared with the schedule of that owner
alone: the owner has begun its lap, or it has yet to begin it.
-/

namespace DynamicDispatch

variable {C S : Type}

/-- The children that belong to one owner, in order. -/
def ownedBy (i : Nat) (children : List (Nat × Child C)) : List (Child C) :=
  children.filterMap fun p => if p.1 = i then some p.2 else none

section OwnedBy

variable {i j : Nat} {child : Child C} {l m : List (Nat × Child C)}

@[simp]
theorem ownedBy_nil : ownedBy i ([] : List (Nat × Child C)) = [] := rfl

@[simp]
theorem ownedBy_cons_self : ownedBy i ((i, child) :: l) = child :: ownedBy i l := by simp [ownedBy]

theorem ownedBy_cons_ne (h : j ≠ i) : ownedBy i ((j, child) :: l) = ownedBy i l := by
  simp [ownedBy, h]

@[simp]
theorem ownedBy_append : ownedBy i (l ++ m) = ownedBy i l ++ ownedBy i m := List.filterMap_append

@[simp]
theorem ownedBy_map_self (children : List (Child C)) :
    ownedBy i (children.map (i, ·)) = children := by
  simp [ownedBy, List.filterMap_map]

theorem ownedBy_map_ne (h : j ≠ i) (children : List (Child C)) :
    ownedBy i (children.map (j, ·)) = [] := by
  simp [ownedBy, h]

/-- What belongs to an owner stands beside its position. -/
theorem mem_ownedBy : child ∈ ownedBy i l ↔ (i, child) ∈ l := by
  simp only [ownedBy, List.mem_filterMap, Prod.exists]
  constructor
  · rintro ⟨j, other, hmem, h⟩
    split at h
    · next heq =>
      cases h
      exact heq ▸ hmem
    · cases h
  · exact fun h => ⟨i, child, h, if_pos rfl⟩

end OwnedBy

/-- A turn that a child has taken on behalf of its owner: what was seen of it, and what was left of the
child. -/
structure TakenTurn (C : Type) where
  owner : Nat
  child : Child C
  calls : List (SeenCall C)
  left : Option (Child C)

/-- Whether a child has come to its end with a turn, and has reported to a mailbox. -/
def Child.endsFor (box : Nat) (child : Child C) (left : Option (Child C)) : Bool :=
  child.mailbox == box && left.isNone

namespace TakenTurn

/-- What was seen of the turns that were taken on behalf of an owner. -/
def callsOf (i : Nat) (turns : List (TakenTurn C)) : List (SeenCall C) :=
  (turns.filter (·.owner == i)).flatMap (·.calls)

/-- How often a child that reports to a mailbox has come to its end on behalf of an owner. -/
def endings (box i : Nat) (turns : List (TakenTurn C)) : Nat :=
  turns.countP fun t => t.owner == i && t.child.endsFor box t.left

variable {box i j : Nat} {child : Child C} {calls : List (SeenCall C)} {left : Option (Child C)}
  {turns : List (TakenTurn C)}

theorem callsOf_cons_self :
    callsOf i (⟨i, child, calls, left⟩ :: turns) = calls ++ callsOf i turns := by simp [callsOf]

theorem callsOf_cons_ne (h : j ≠ i) :
    callsOf i (⟨j, child, calls, left⟩ :: turns) = callsOf i turns := by simp [callsOf, h]

theorem endings_cons_self : endings box i (⟨i, child, calls, left⟩ :: turns) =
    endings box i turns + (child.endsFor box left).toNat := by
  rw [endings, List.countP_cons]
  cases child.endsFor box left <;> simp [endings]

theorem endings_cons_ne (h : j ≠ i) :
    endings box i (⟨j, child, calls, left⟩ :: turns) = endings box i turns := by
  rw [endings, List.countP_cons]
  simp [endings, h]

end TakenTurn

section Carries

variable [Embedding C S]

/-- Driving a parallel task and all that its children start until nothing gets any further, with the turns
that were taken and by whom. What a child starts, and what is left of it, belongs to the owner of the
child. Nothing is seen of the turns of the parallel task itself, and it starts nothing any more. -/
inductive Carries (watch : Func C → Bool) : Turn C → List (Nat × Child C) → List (Nat × Child C) →
    World C S → List (TakenTurn C) → Option (Outcome (Value C)) → World C S → Prop
  | ended {main : Turn C} {turned : List (Nat × Child C)} {w : World C S}
      (h : Schedule.canAdvance w ⟨main, [], turned.map (·.2)⟩ = false) :
      Carries watch main [] turned w [] main.outcome? w
  | lap {main main' : Turn C} {turned : List (Nat × Child C)} {w w₁ w' : World C S}
      {turns : List (TakenTurn C)} {o : Option (Outcome (Value C))}
      (h : Schedule.canAdvance w ⟨main, [], turned.map (·.2)⟩ = true)
      (hturn : (Schedule.mainTurn main).Shows watch w [] (.ok (main', [])) w₁)
      (rest : Carries watch main' turned [] w₁ turns o w') : Carries watch main [] turned w turns o w'
  | child {main : Turn C} {i : Nat} {child : Child C} {waiting turned : List (Nat × Child C)}
      {left : Option (Child C)} {started : List (Child C)} {calls : List (SeenCall C)}
      {w w₁ w' : World C S} {turns : List (TakenTurn C)} {o : Option (Outcome (Value C))}
      (hturn : (Schedule.childTurn child).Shows watch w calls (.ok (left, started)) w₁)
      (rest : Carries watch main (waiting ++ started.map (i, ·)) (turned ++ left.toList.map (i, ·)) w₁
        turns o w') :
      Carries watch main ((i, child) :: waiting) turned w (⟨i, child, calls, left⟩ :: turns) o w'

/-- Without the owners it is the schedule that is driven. -/
theorem Carries.runs {watch : Func C → Bool} {main : Turn C} {waiting turned : List (Nat × Child C)}
    {w w' : World C S} {turns : List (TakenTurn C)} {o : Option (Outcome (Value C))}
    (h : Carries watch main waiting turned w turns o w') :
    Schedule.Runs watch ⟨main, waiting.map (·.2), turned.map (·.2)⟩ w (turns.flatMap (·.calls)) (.ok o)
      w' := by
  induction h with
  | ended h => exact .ended ((Schedule.shows_step_nil_over_iff h).mpr ⟨rfl, rfl, rfl⟩)
  | @lap _ _ _ _ _ _ turns _ h hturn _ ih =>
    rw [← List.nil_append (turns.flatMap _)]
    refine .turn ((Schedule.shows_step_nil_iff h).mpr ⟨_, hturn, rfl⟩) ?_
    rwa [List.append_nil]
  | @child main i child waiting turned left started _ _ _ _ _ _ hturn _ ih =>
    rw [List.flatMap_cons]
    refine .turn (Schedule.shows_step_cons_iff.mpr ⟨_, hturn, rfl⟩) ?_
    have howners : ∀ children : List (Child C),
        (children.map fun c => (i, c)).map (·.2) = children := by
      intro children
      simp [Function.comp_def]
    simpa only [List.map_append, howners] using ih

end Carries

/-- The place of the owner itself among what belongs to it: it is there until it has settled. -/
def Turn.place (box i : Nat) : Turn C → List (Child C)
  | .settled _ => []
  | .pending run => [⟨box, i, run⟩]

/-- The owner and what it has started get further if its schedule does. -/
theorem Turn.any_place (box i : Nat) (w : World C S) (main : Turn C) (turned : List (Child C)) :
    (main.place box i ++ turned).any (·.run.canAdvance w) =
      Schedule.canAdvance w ⟨main, [], turned⟩ := by
  cases main with
  | settled o => rfl
  | pending run => rfl

/-- What of a strand waits for its turn in a lap of the parallel task and what has taken it: the strand
has begun a lap of its own, or it has yet to begin one, or nothing in it gets any further. -/
inductive Fits (box i : Nat) : Strand C S → List (Child C) → List (Child C) → Prop
  | underway {main : Turn C} {waiting turned : List (Child C)} {u : World C S} :
      Fits box i ⟨.under ⟨main, waiting, turned⟩, u⟩ waiting (main.place box i ++ turned)
  | before {main : Turn C} {turned waiting taken : List (Child C)} {u : World C S}
      (hall : taken ++ waiting = main.place box i ++ turned)
      (hidle : taken = [] ∨ Schedule.canAdvance u ⟨main, [], turned⟩ = false) :
      Fits box i ⟨.under ⟨main, [], turned⟩, u⟩ waiting taken

/-- After a lap, what belongs to an owner is what has its turn in the next lap of its strand. -/
theorem Fits.lap {box i : Nat} {x : Strand C S} {taken : List (Child C)} (h : Fits box i x [] taken) :
    ∃ main turned, x.course = .under ⟨main, [], turned⟩ ∧ taken = main.place box i ++ turned := by
  cases h with
  | underway => exact ⟨_, _, rfl, rfl⟩
  | before hall _ => exact ⟨_, _, rfl, by rwa [List.append_nil] at hall⟩

/-- A lap that is over is followed by another one. -/
theorem Fits.again {box i : Nat} {x : Strand C S} {taken : List (Child C)}
    (h : Fits box i x [] taken) : Fits box i x taken [] := by
  obtain ⟨main, turned, hcourse, rfl⟩ := h.lap
  obtain ⟨course, u⟩ := x
  cases hcourse
  exact .before rfl (.inl rfl)

end DynamicDispatch
