import DynamicDispatch.Methods.Argument
import DynamicDispatch.Task.Combinator

/-!
# Methods of tasks

Every method gives a new task and runs nothing. An error of a function that runs inside the task is
a failure of the task, never of the method.
-/

namespace DynamicDispatch.Methods

variable {C S : Type}

/-- A new task as a value. -/
def taskValue (r : Recipe C) : Action C S (Value C) := do
  return .task (← Action.minting (newTask r))

/-- Both folds of a task: it holds at most one value. -/
def foldTask (m : Method) : Implementation C S := fun args => do
  let f ← functionAt m args 0
  taskValue (.tryFold f (argument args 1) (← taskSubject m args))

/-- What tasks do. -/
def task : Method → Implementation C S
  | .render => fun _ => return .text "Task \x7b\x7d"
  | .clone => fun args => do taskValue (← taskSubject .clone args).cloned
  | .shallowClone => identity
  | .foldl => foldTask .foldl
  | .foldr => foldTask .foldr
  | .map => fun args => do
    let f ← functionAt .map args 0
    taskValue (.tryMap f (← taskSubject .map args))
  | .bimap => fun args => do
    let f ← functionAt .bimap args 0
    let g ← functionAt .bimap args 1
    taskValue (.tryBimap f g (← taskSubject .bimap args))
  | .of => fun args => taskValue (.succeed (argument args 0))
  | .flatten => fun args => do taskValue (← taskSubject .flatten args).flatten
  | .ap => fun args => do
    match argument args 0 with
    | .task values => taskValue (.ap values.recipe (← taskSubject .ap args))
    | other => mismatch .ap "a Task" other
  | m => unprovided m

end DynamicDispatch.Methods
