import DynamicDispatch.Proofs.Task.Laws

/-!
# A function applied to the values of two tasks

Mapping a function that collects two arguments over a task gives a task of functions that wait for the
second one, and a second task's value is applied to the function that arrives. Turn by turn this is seen
to be the two tasks, one after the other, and then a single call of the function.
-/

namespace DynamicDispatch

open DynamicDispatch.Action (Alike)
open DynamicDispatch.Currying (Collects fill given supply)

variable {C S : Type}

/-- Calls a function on two values. For a hole among them a later argument would be collected. -/
def callBoth (f : Func C) (x y : Value C) : Action C S (Value C) :=
  if x.isPlaceholder || y.isPlaceholder then supply 2 f (fill [x] [y]) else call f [x, y]

/-- Values that are no holes are passed on. -/
theorem callBoth_of_given {f : Func C} {x y : Value C} (hx : x.isPlaceholder = false)
    (hy : y.isPlaceholder = false) : (callBoth f x y : Action C S (Value C)) = call f [x, y] := by
  rw [callBoth, hx, hy, Bool.or_false, if_neg Bool.false_ne_true]

/-- What is left to do of two tasks, the values of which a function is called on. -/
inductive Lifting (C : Type) where
  /-- The first task is running. -/
  | first (run : Run C)
  /-- The first task has succeeded with a value and the second one is running. -/
  | second (x : Value C) (run : Run C)

namespace Lifting

/-- A turn of the second task. Its failure is the failure of the whole; when it succeeds, the function is
called, and an error of the function is a failure as well. -/
def secondTurn (f : Func C) (x : Value C) (run : Run C) :
    Action C S (Outcome (Value C) ⊕ Lifting C) := do
  match ← run.poll with
  | .pending rest => return .inr (.second x rest)
  | .settled ⟨.failure, e⟩ => return .inl ⟨.failure, e⟩
  | .settled ⟨.success, y⟩ =>
    match ← (callBoth f x y).attempt with
    | .ok z => return .inl ⟨.success, z⟩
    | .error e => return .inl ⟨.failure, failureValue e⟩

/-- A turn of the task that is running. A failure of the first task is the failure of the whole; when it
succeeds, the second task is started and has its turn. The function that waits for the second value
takes an identity. -/
def turn (f : Func C) (b : Recipe C) : Lifting C → Action C S (Outcome (Value C) ⊕ Lifting C)
  | .first run => do
    match ← run.poll with
    | .pending rest => return .inr (.first rest)
    | .settled ⟨.failure, e⟩ => return .inl ⟨.failure, e⟩
    | .settled ⟨.success, x⟩ =>
      let _ ← Action.minting newId
      secondTurn f x (← b.start)
  | .second x run => secondTurn f x run

/-- Whether a turn would get it any further. -/
def canAdvance (w : World C S) : Lifting C → Bool
  | .first run => run.canAdvance w
  | .second _ run => run.canAdvance w

/-- The answer of a turn of a run and that of a turn of a lifting: the same outcome, or what is left. -/
inductive TurnRelated (R : Run C → Lifting C → Prop) : Turn C → Outcome (Value C) ⊕ Lifting C → Prop
  | settled (o : Outcome (Value C)) : TurnRelated R (.settled o) (.inl o)
  | pending {run : Run C} {l : Lifting C} (h : R run l) : TurnRelated R (.pending run) (.inr l)

end Lifting

/-- Started, a task is the first of two tasks, and no sequence of turns tells it apart from the two, one
after the other, and a call of a function on their values, whatever happens to the world between two
turns. -/
def Recipe.Lifts (S : Type) [Embedding C S] (watch : Func C → Bool) (f : Func C) (r a b : Recipe C) :
    Prop :=
  ∃ R : Run C → Lifting C → Prop,
    Alike (S := S) watch R r.start (do return .first (← a.start)) ∧
    (∀ run l, R run l → ∀ w : World C S, run.canAdvance w = l.canAdvance w) ∧
    ∀ run l, R run l → Alike (S := S) watch (Lifting.TurnRelated R) run.poll (l.turn f b)

variable [Embedding C S] {watch : Func C → Bool} {f g p : Func C} {b : Recipe C} {x : Value C}

/-- A function that collects two arguments and holds the first one calls its function on both. -/
theorem Currying.Collects.alike_call_second (h : Collects 2 f [x] p) (hwatch : watch p = false)
    (y : Value C) :
    Alike watch Eq (call p [y] : Action C S (Value C)) (callBoth f x y) := by
  refine (Action.alike_call hwatch [y]).trans ?_
  rw [callBoth]
  split
  case isTrue => exact h.body_eq (S := S) [y] ▸ Alike.refl _
  case isFalse hgiven =>
    obtain ⟨hx, hy⟩ := Bool.or_eq_false_iff.mp (Bool.eq_false_iff.mpr hgiven)
    have hvalues : ∀ v ∈ [x] ++ [y], v.isPlaceholder = false :=
      List.forall_mem_cons.mpr ⟨hx, List.forall_mem_singleton.mpr hy⟩
    exact h.body_of_complete (S := S) hvalues rfl ▸ Alike.refl _

/-- Given the first of its two arguments, a function that collects them takes an identity for one that
holds it. -/
theorem Currying.Collects.alike_call_first (h : Collects 2 f [] g) (hwatch : watch g = false)
    (x : Value C) :
    Alike watch Eq (call g [x] : Action C S (Value C)) (do
      let id ← Action.minting newId
      return .func ⟨id, f.name, 2 - given [x], .collecting 2 f [x]⟩) := by
  have hmissing : ¬ 2 ≤ given [x] :=
    Nat.not_le.mpr (Nat.lt_of_le_of_lt List.countP_le_length (Nat.lt_succ_self 1))
  have hbody : (g.body [x] : Action C S (Value C)) = do
      let id ← Action.minting newId
      return .func ⟨id, f.name, 2 - given [x], .collecting 2 f [x]⟩ := by
    rw [h.body_eq, fill, supply, List.take_of_length_le (Nat.le_succ 1), if_neg hmissing]
    rfl
  exact hbody ▸ Action.alike_call hwatch [x]

/-- The runs of the mapped and applied tasks and what they stand for: first a function that collects is
mapped over a run, then one that holds the first value. -/
inductive Lifting.Stands (f : Func C) (b : Recipe C) : Run C → Lifting C → Prop
  | first {g : Func C} (h : Collects 2 f [] g) (run : Run C) :
    Stands f b (.chained (.chained run (.apply g [] .success .fail) .keep) (.applyTo b) .keep)
      (.first run)
  | second {p : Func C} {x : Value C} (h : Collects 2 f [x] p) (run : Run C) :
    Stands f b (.chained run (.apply p [] .success .fail) .keep) (.second x run)

/-- Applying a function to a success is calling it and settling with what comes of it. -/
theorem Run.alike_goOn_apply (g : Func C) (v : Value C) :
    Alike watch Eq
      (Run.goOn (.apply g [] .success .fail) .keep (.settled ⟨.success, v⟩) : Action C S (Turn C))
      (do return .settled (Step.outcomeOf .success .fail (← (call g [v]).attempt))) := by
  simp only [goOn, Step.next, bind_assoc, pure_bind]
  exact Alike.after _ fun r => alike_enter_settled _

/-- The run of the second task, mapped by a function that holds the first value. -/
theorem Lifting.alike_secondTurn (hwatch : ∀ g slots, Collects 2 f slots g → watch g = false)
    (h : Collects 2 f [x] p) (run : Run C) :
    Alike watch (TurnRelated (Stands f b))
      (Run.chained run (.apply p [] .success .fail) .keep).poll
      (secondTurn f x run : Action C S (Outcome (Value C) ⊕ Lifting C)) := by
  rw [Run.poll_chained, secondTurn]
  refine Alike.after _ fun t => ?_
  rcases t with ⟨side, v⟩ | rest
  · cases side with
    | failure => exact (Run.alike_goOn_failure _ v).eq_trans (Alike.pure (.settled _))
    | success =>
      refine (Run.alike_goOn_apply p v).eq_trans ?_
      refine (h.alike_call_second (hwatch p [x] h) v).attempt.bind fun r r' hr => ?_
      obtain rfl := resultRel_eq_iff.mp hr
      cases r <;> exact Alike.pure (.settled _)
  · exact Alike.pure (.pending (.second h rest))

/-- When the function that holds the first value arrives, the second task is started and has its turn. -/
theorem Lifting.alike_goOn_applyTo (hwatch : ∀ g slots, Collects 2 f slots g → watch g = false)
    (h : Collects 2 f [x] p) :
    Alike watch (TurnRelated (Stands f b))
      (Run.goOn (.applyTo b) .keep (.settled ⟨.success, .func p⟩) : Action C S (Turn C))
      (do secondTurn f x (← b.start)) :=
  (Run.alike_goOn_applyTo b p .keep).eq_trans (Alike.after _ fun run => alike_secondTurn hwatch h run)

/-- The run of the first task, mapped by a function that collects and followed by what applies the second
task's value. -/
theorem Lifting.alike_firstTurn (hwatch : ∀ g slots, Collects 2 f slots g → watch g = false)
    (h : Collects 2 f [] g) (run : Run C) :
    Alike watch (TurnRelated (Stands f b))
      (Run.chained (.chained run (.apply g [] .success .fail) .keep) (.applyTo b) .keep).poll
      ((Lifting.first run).turn f b : Action C S (Outcome (Value C) ⊕ Lifting C)) := by
  rw [Run.poll_chained, Run.poll_chained, bind_assoc, turn]
  refine Alike.after _ fun t => ?_
  rcases t with ⟨side, v⟩ | rest
  · cases side with
    | failure =>
      exact (Run.alike_enter_fail_bind (S := S) (.applyTo b) v).eq_trans
        ((Run.alike_enter_settled _).eq_trans (Alike.pure (.settled _)))
    | success =>
      let goOn : Except Error (Value C) → Action C S (Turn C) := fun r =>
        Run.goOn (.applyTo b) .keep (.settled (Step.outcomeOf .success .fail r))
      have hpartial : Alike watch Eq ((call g [v]).attempt >>= goOn) (do
          let id ← Action.minting newId
          goOn (.ok (.func ⟨id, f.name, 2 - given [v], .collecting 2 f [v]⟩))) :=
        ((h.alike_call_first (hwatch g [] h) v).attempt.mono fun _ _ => resultRel_eq_iff.mp).before goOn
      refine ((Run.alike_goOn_apply g v).before (Run.goOn (.applyTo b) .keep)).eq_trans ?_
      simp only [bind_assoc, pure_bind]
      refine hpartial.eq_trans (Alike.after _ fun id => ?_)
      exact alike_goOn_applyTo hwatch (Or.inl rfl)
  · exact Alike.pure (.pending (.first h rest))

/-- Mapping a function that collects two arguments over a task and applying it to another one lifts the
function to both. -/
theorem Recipe.lifts_ap_tryMap (hwatch : ∀ g slots, Collects 2 f slots g → watch g = false)
    (h : Collects 2 f [] g) (a b : Recipe C) :
    (Recipe.ap b (a.tryMap g)).Lifts S watch f a b := by
  refine ⟨Lifting.Stands f b, ?start, ?canAdvance, ?turn⟩
  case start =>
    simp only [Recipe.ap, Recipe.tryMap, Recipe.start, bind_assoc, pure_bind]
    exact Alike.after _ fun run => Alike.pure (.first h run)
  case canAdvance =>
    rintro _ _ (⟨h, run⟩ | ⟨h, run⟩) w <;> rfl
  case turn =>
    rintro _ _ (⟨h, run⟩ | ⟨h, run⟩)
    · exact Lifting.alike_firstTurn hwatch h run
    · exact Lifting.alike_secondTurn hwatch h run

end DynamicDispatch
