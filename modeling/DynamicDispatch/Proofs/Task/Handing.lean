import DynamicDispatch.Proofs.Task.Laws
import DynamicDispatch.Proofs.Task.Turns

/-!
# Tasks that hand their outcome to functions

A combinator hands the outcome of a task to functions, one for each channel, and takes what comes of it for
its own outcome. What is done is said here once, by a small machine that ends with a reply: an outcome that
is kept, or the result of a function. Combinators differ in how they read a reply that is an error. So two of
them that run the same machine do the same, and end alike unless a function has given an error.
-/

namespace DynamicDispatch

open DynamicDispatch.Action (Alike request shows_attempt_iff shows_bind_iff shows_bind_pure_iff
  shows_pure_iff shows_request_iff)

variable {C S : Type}

/-- What comes of an outcome that is handed on: an outcome, or the result of a function that was called on
a channel. -/
inductive Reply (C : Type) where
  | kept (outcome : Outcome (Value C))
  | called (side : Side) (result : Except Error (Value C))

namespace Reply

/-- The outcome that a reply is read as. -/
def outcome (onError : OnError) : Reply C → Outcome (Value C)
  | .kept o => o
  | .called side result => Step.outcomeOf side onError result

/-- Keeps a value on its channel. -/
def keeping (side : Side) (v : Value C) : Action C S (Reply C) := return .kept ⟨side, v⟩

/-- Puts a fixed outcome in the place of a value. -/
def settling (o : Outcome (Value C)) (_ : Value C) : Action C S (Reply C) := return .kept o

/-- Calls a function on a value and further arguments, for a channel. -/
def calling (f : Func C) (rest : List (Value C)) (side : Side) (v : Value C) :
    Action C S (Reply C) := do
  return .called side (← (call f (v :: rest)).attempt)

end Reply

open Reply

/-- A step of a chain does with a value on a channel what `handler` does, and settles with the reply. -/
def Step.Answers (S : Type) (onError : OnError) (side : Side) (step : Step C)
    (handler : Value C → Action C S (Reply C)) : Prop :=
  ∀ v, (step.next ⟨side, v⟩ : Action C S (Recipe C)) =
    do return .settled ((← handler v).outcome onError)

namespace Step

variable (onError : OnError)

theorem answers_keep (side : Side) : (keep : Step C).Answers S onError side (keeping side) :=
  fun _ => rfl

theorem answers_settle (side : Side) (o : Outcome (Value C)) :
    (settle o).Answers S onError side (settling o) :=
  fun _ => rfl

theorem answers_apply (side side' : Side) (f : Func C) (rest : List (Value C)) :
    (apply f rest side' onError).Answers S onError side (calling f rest side') := by
  intro v
  simp only [next, calling, bind_assoc, pure_bind, outcome]

end Step

/-- What is left to do of a task whose outcome is handed on. -/
inductive Handing (C S : Type) where
  /-- The task is running. Its value is handed on by one of two handlers, as the channel decides. -/
  | value (onSuccess onFailure : Value C → Action C S (Reply C)) (run : Run C)
  /-- A task is running that succeeds with a function, to be called on the value of another task. -/
  | function (values : Recipe C) (run : Run C)

namespace Handing

/-- A turn of the task whose value is handed on. -/
def valueTurn (onSuccess onFailure : Value C → Action C S (Reply C)) (run : Run C) :
    Action C S (Reply C ⊕ Handing C S) := do
  match ← run.poll with
  | .pending rest => return .inr (.value onSuccess onFailure rest)
  | .settled ⟨.success, v⟩ => return .inl (← onSuccess v)
  | .settled ⟨.failure, v⟩ => return .inl (← onFailure v)

/-- A turn of what is running. When a function arrives, the other task is started and has its turn; any
other value in the place of a function is a failure. -/
def turn : Handing C S → Action C S (Reply C ⊕ Handing C S)
  | .value onSuccess onFailure run => valueTurn onSuccess onFailure run
  | .function values run => do
    match ← run.poll with
    | .pending rest => return .inr (.function values rest)
    | .settled ⟨.failure, e⟩ => return .inl (.kept ⟨.failure, e⟩)
    | .settled ⟨.success, .func f⟩ =>
      valueTurn (calling f [] .success) (keeping .failure) (← values.start)
    | .settled ⟨.success, other⟩ =>
      return .inl (.kept ⟨.failure,
        failureValue (.typeMismatch "ap" "a Task of a function" other.typeName)⟩)

/-- Whether a turn would get it any further. -/
def canAdvance (w : World C S) : Handing C S → Bool
  | .value _ _ run | .function _ run => run.canAdvance w

/-- A task is started, to hand on its value. -/
def start (onSuccess onFailure : Value C → Action C S (Reply C)) (t : Recipe C) :
    Action C S (Handing C S) := do
  return .value onSuccess onFailure (← t.start)

/-- A task of a function is started, to call the function on the value of another task. -/
def startFunction (values functions : Recipe C) : Action C S (Handing C S) := do
  return .function values (← functions.start)

/-- The answer of a turn of a run and that of a turn of the machine: the outcome that the reply is read as,
or what is left. -/
inductive TurnRelated (onError : OnError) (R : Run C → Handing C S → Prop) :
    Turn C → Reply C ⊕ Handing C S → Prop
  | settled (r : Reply C) : TurnRelated onError R (.settled (r.outcome onError)) (.inl r)
  | pending {run : Run C} {h : Handing C S} (hR : R run h) :
    TurnRelated onError R (.pending run) (.inr h)

end Handing

/-- No sequence of turns tells a task apart from the machine with its replies read as outcomes, whatever
happens to the world between two turns. -/
def Recipe.Hands (S : Type) [Embedding C S] (watch : Func C → Bool) (onError : OnError)
    (t : Recipe C) (start : Action C S (Handing C S)) : Prop :=
  ∃ R : Run C → Handing C S → Prop, Alike watch R t.start start ∧
    (∀ run h, R run h → ∀ w : World C S, run.canAdvance w = h.canAdvance w) ∧
    ∀ run h, R run h → Alike watch (Handing.TurnRelated onError R) run.poll h.turn

section Hands

variable [Embedding C S] {watch : Func C → Bool} {onError : OnError} {onSuccess onFailure : Step C}
  {a b : Value C → Action C S (Reply C)}

/-- A chain whose steps answer as handlers do goes on as the handlers say. -/
theorem Run.alike_goOn_answers (ha : onSuccess.Answers S onError .success a)
    (hb : onFailure.Answers S onError .failure b) (o : Outcome (Value C)) :
    Alike watch Eq (Run.goOn onSuccess onFailure (.settled o) : Action C S (Turn C)) (do
      let reply ← match o.side with
        | .success => a o.value
        | .failure => b o.value
      return .settled (reply.outcome onError)) := by
  obtain ⟨side, v⟩ := o
  cases side with
  | success =>
    simp only [goOn, ha v, bind_assoc, pure_bind]
    exact Alike.after _ fun r => alike_enter_settled _
  | failure =>
    simp only [goOn, hb v, bind_assoc, pure_bind]
    exact Alike.after _ fun r => alike_enter_settled _

/-- A turn of such a chain is a turn of the machine. -/
theorem Handing.alike_valueTurn (ha : onSuccess.Answers S onError .success a)
    (hb : onFailure.Answers S onError .failure b) {R : Run C → Handing C S → Prop}
    (hR : ∀ rest, R (.chained rest onSuccess onFailure) (.value a b rest)) (run : Run C) :
    Alike watch (TurnRelated onError R) (Run.chained run onSuccess onFailure).poll
      (valueTurn a b run) := by
  rw [Run.poll_chained, valueTurn]
  refine Alike.after _ fun t => ?_
  cases t with
  | pending rest => exact Alike.pure (.pending (hR rest))
  | settled o =>
    refine (Run.alike_goOn_answers ha hb o).eq_trans ?_
    obtain ⟨side, v⟩ := o
    cases side with
    | success => exact Alike.after _ fun r => Alike.pure (.settled r)
    | failure => exact Alike.after _ fun r => Alike.pure (.settled r)

/-- The runs of a chain and the machine for them. -/
inductive Handing.Chained (onSuccess onFailure : Step C) (a b : Value C → Action C S (Reply C)) :
    Run C → Handing C S → Prop
  | chained (run : Run C) :
    Chained onSuccess onFailure a b (.chained run onSuccess onFailure) (.value a b run)

/-- A chain whose steps answer as handlers do hands the outcome of its first task to them. -/
theorem Recipe.hands_chain (ha : onSuccess.Answers S onError .success a)
    (hb : onFailure.Answers S onError .failure b) (t : Recipe C) :
    (Recipe.chain t onSuccess onFailure).Hands S watch onError (Handing.start a b t) := by
  refine ⟨Handing.Chained onSuccess onFailure a b, ?_, ?_, ?_⟩
  · simp only [Recipe.start, Handing.start]
    exact Alike.after _ fun run => Alike.pure (.chained run)
  · rintro _ _ ⟨run⟩ w
    rfl
  · rintro _ _ ⟨run⟩
    exact Handing.alike_valueTurn ha hb .chained run

/-- The runs of applied functions: first the task of a function, then the one of its argument. -/
inductive Handing.Applying (values : Recipe C) : Run C → Handing C S → Prop
  | function (run : Run C) :
    Applying values (.chained run (.applyTo values) .keep) (.function values run)
  | value (f : Func C) (run : Run C) :
    Applying values (.chained run (.apply f [] .success .fail) .keep)
      (.value (calling f [] .success) (keeping .failure) run)

/-- Applying the function that one task succeeds with to the value of another one hands the value to the
function. -/
theorem Recipe.hands_ap (values functions : Recipe C) :
    (Recipe.ap values functions).Hands S watch .fail (Handing.startFunction values functions) := by
  have hvalue : ∀ (f : Func C) (run : Run C),
      Alike watch (Handing.TurnRelated .fail (Handing.Applying values))
        (Run.chained run (.apply f [] .success .fail) .keep).poll
        (Handing.valueTurn (calling f [] .success) (keeping .failure) run : Action C S _) :=
    fun f run => Handing.alike_valueTurn (Step.answers_apply .fail .success .success f [])
      (Step.answers_keep .fail .failure) (.value f) run
  refine ⟨Handing.Applying values, ?_, ?_, ?_⟩
  · simp only [Recipe.ap, Recipe.start, Handing.startFunction]
    exact Alike.after _ fun run => Alike.pure (.function run)
  · rintro _ _ (⟨run⟩ | ⟨f, run⟩) w <;> rfl
  · rintro _ _ (⟨run⟩ | ⟨f, run⟩)
    · rw [Run.poll_chained, Handing.turn]
      refine Alike.after _ fun t => ?_
      rcases t with ⟨side, v⟩ | rest
      · cases side with
        | failure =>
          exact (Run.alike_goOn_failure _ v).eq_trans (Alike.pure (.settled (.kept ⟨.failure, v⟩)))
        | success =>
          cases v with
          | func f =>
            -- The function has arrived, so that the other task is started and has its turn.
            exact (Run.alike_goOn_applyTo values f .keep).eq_trans
              (Alike.after _ fun run => hvalue f run)
          | _ =>
            simp only [Run.goOn, Step.next, pure_bind]
            exact (Run.alike_enter_settled _).eq_trans (Alike.pure (.settled (.kept _)))
      · exact Alike.pure (.pending (.function rest))
    · exact hvalue f run

end Hands

end DynamicDispatch
