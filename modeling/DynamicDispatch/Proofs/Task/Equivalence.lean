import DynamicDispatch.Proofs.Task.Turns

/-!
# Tasks that run alike

Two tasks are equivalent when their runs cannot be told apart: turn by turn, whatever the world has
become in between, they show the same calls, leave the same world and settle with the same outcome or
go on waiting. Driven by the scheduler from the same world they then make the same calls in the same
order, have the same effects and end alike, or both never settle. Equivalence is proved by relating
the runs that may come up and looking at one turn.
-/

namespace DynamicDispatch

open DynamicDispatch.Action

variable {C S : Type}

/-- Answers to a turn that agree: the same outcome, or related runs that go on. -/
inductive Turn.Related (R : Run C → Run C → Prop) : Turn C → Turn C → Prop
  | settled (o : Outcome (Value C)) : Related R (.settled o) (.settled o)
  | pending {a b : Run C} (h : R a b) : Related R (.pending a) (.pending b)

/-- Related one way round is related the other way round. -/
theorem Turn.Related.flip {R : Run C → Run C → Prop} {t t' : Turn C}
    (h : Turn.Related R t t') : Turn.Related (flip R) t' t := by
  cases h with
  | settled o => exact .settled o
  | pending h => exact .pending h

/-- Equal answers agree when every run is related to itself. -/
theorem Turn.Related.of_eq {R : Run C → Run C → Prop} (hrefl : ∀ a, R a a) {t t' : Turn C}
    (h : t = t') : Turn.Related R t t' := by
  subst h
  cases t with
  | settled o => exact .settled o
  | pending run => exact .pending (hrefl run)

/-- A relation between runs that every turn keeps, in every world. -/
structure Run.Bisimulation (S : Type) [Embedding C S] (watch : Func C → Bool)
    (R : Run C → Run C → Prop) : Prop where
  /-- A turn would get both further, or neither. -/
  canAdvance_eq : ∀ a b, R a b → ∀ w : World C S, a.canAdvance w = b.canAdvance w
  /-- What is seen of a turn is the same, and the answers agree. -/
  poll_alike : ∀ a b, R a b → Alike (S := S) watch (Turn.Related R) a.poll b.poll

/-- Two tasks that cannot be told apart by running them. -/
structure Recipe.Equivalent (S : Type) [Embedding C S] (watch : Func C → Bool) (r s : Recipe C) :
    Prop where
  /-- They start alike, as runs that no sequence of turns tells apart, whatever happens to the world
  between two turns. -/
  turns : ∃ R, Run.Bisimulation S watch R ∧ Alike (S := S) watch R r.start s.start
  /-- Run on their own from the same world, they show the same calls in the same order, end alike
  (with an outcome, or without one) and leave the same world. -/
  runs : ∀ (w : World C S) calls o w', r.run.Shows watch w calls o w' ↔ s.run.Shows watch w calls o w'

namespace Run.Bisimulation

variable [Embedding C S] {watch : Func C → Bool} {R : Run C → Run C → Prop}

/-- A bisimulation is one the other way round. -/
theorem flip (h : Run.Bisimulation S watch R) : Run.Bisimulation S watch (flip R) := by
  refine ⟨fun a b hab w => (h.canAdvance_eq b a hab w).symm, fun a b hab depth => ?_⟩
  obtain ⟨hforth, hback⟩ := h.poll_alike b a hab depth
  exact ⟨hback.mono fun _ _ ht => ht.flip, hforth.mono fun _ _ ht => ht.flip⟩

/-- Turns that agree would get further in the same worlds. -/
theorem turn_canAdvance_eq (h : Run.Bisimulation S watch R) {t t' : Turn C}
    (ht : Turn.Related R t t') (w : World C S) : t.canAdvance w = t'.canAdvance w := by
  cases ht with
  | settled o => rfl
  | pending hab => exact h.canAdvance_eq _ _ hab w

/-- Main runs that are related replace each other. -/
theorem replaces (h : Run.Bisimulation S watch R) :
    Schedule.Replaces (S := S) watch (fun _ s t _ => Turn.Related R s.main t) (fun _ o o' => o = o') where
  child hM _ _ _ _ _ := hM
  canAdvance_eq hM := h.turn_canAdvance_eq hM _
  main := by
    intro past main turned t w hM _ calls r w' hturn
    cases hM with
    | settled o =>
      obtain ⟨rfl, rfl, rfl⟩ := Schedule.shows_mainTurn_settled_iff.mp hturn
      exact ⟨_, hturn, .ok ⟨rfl, .settled o⟩⟩
    | pending hab =>
      rcases Schedule.shows_mainTurn_iff.mp hturn with ⟨t, w₁, hpoll, rfl, rfl⟩ | ⟨e, hpoll, rfl⟩
      · obtain ⟨_, ⟨ht⟩, hpoll'⟩ := (h.poll_alike _ _ hab).shows hpoll
        exact ⟨_, Schedule.shows_mainTurn_iff.mpr (Or.inl ⟨_, _, hpoll', rfl, rfl⟩), .ok ⟨rfl, ht⟩⟩
      · obtain ⟨_, ⟨_⟩, hpoll'⟩ := (h.poll_alike _ _ hab).shows hpoll
        exact ⟨_, Schedule.shows_mainTurn_iff.mpr (Or.inr ⟨e, hpoll', rfl⟩), .error e⟩
  ended hM := by cases hM <;> rfl

/-- What is seen of driving a schedule is seen of driving it with a related main run. -/
theorem runs (h : Run.Bisimulation S watch R) {t t' : Turn C} (ht : Turn.Related R t t')
    {waiting turned : List (Child C)} {w w' : World C S} {calls : List (SeenCall C)}
    {o : Except Error (Option (Outcome (Value C)))}
    (hruns : Schedule.Runs watch ⟨t, waiting, turned⟩ w calls o w') :
    Schedule.Runs watch ⟨t', waiting, turned⟩ w calls o w' := by
  obtain ⟨o', hruns', ho⟩ := h.replaces.simulates.runs [] hruns
    ⟨(rfl : (⟨t', waiting, turned⟩ : Schedule C) = _), ht⟩
  obtain rfl := resultRel_eq_iff.mp ho
  exact hruns'

/-- What is seen of running a task is seen of running one that starts as a related run. -/
theorem shows_run (h : Run.Bisimulation S watch R) {r s : Recipe C}
    (hstart : Alike (S := S) watch R r.start s.start) {w w' : World C S} {calls : List (SeenCall C)}
    {o : Except Error (Option (Outcome (Value C)))} (hrun : r.run.Shows watch w calls o w') :
    s.run.Shows watch w calls o w' := by
  rcases Schedule.shows_run_iff.mp hrun with ⟨calls₁, a, w₁, later, ha, hruns, rfl⟩ | ⟨e, ha, rfl⟩
  · obtain ⟨_, ⟨hab⟩, hb⟩ := hstart.shows ha
    exact Schedule.shows_run_iff.mpr
      (Or.inl ⟨_, _, _, _, hb, h.runs (.pending hab) hruns, rfl⟩)
  · obtain ⟨_, ⟨_⟩, hb⟩ := hstart.shows ha
    exact Schedule.shows_run_iff.mpr (Or.inr ⟨e, hb, rfl⟩)

end Run.Bisimulation

/-- Tasks that start as runs related by a bisimulation are equivalent. -/
theorem Recipe.Equivalent.of_bisimulation [Embedding C S] {watch : Func C → Bool}
    {R : Run C → Run C → Prop} (hR : Run.Bisimulation S watch R) {r s : Recipe C}
    (hstart : Alike (S := S) watch R r.start s.start) : r.Equivalent S watch s :=
  ⟨⟨R, hR, hstart⟩, fun _ _ _ _ => ⟨hR.shows_run hstart, hR.flip.shows_run hstart.flip⟩⟩

end DynamicDispatch
