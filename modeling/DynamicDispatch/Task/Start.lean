import DynamicDispatch.Dispatch
import DynamicDispatch.Task.Combinator

/-!
# Starting and continuing tasks

Starting a task calls the functions that its recipe begins with and gives what is left to do. A step
takes the outcome of a run and gives the task to go on as. An error inside a task becomes a value: it
never leaves the task as an error.
-/

namespace DynamicDispatch

variable {C S : Type}

/-- The value that an error becomes inside a task. -/
def failureValue (e : Error) : Value C := .text e.message

/-- The task that fails for an error. -/
def Recipe.failFor (e : Error) : Recipe C := .fail (failureValue e)

/-- Settles a cell, unless it is settled already. -/
def settle (cell : Nat) (outcome : Outcome (Value C)) : Action C S Unit :=
  Action.modify fun w =>
    if (w.cells.get? cell).isSome then w else { w with cells := w.cells.insert cell outcome }

/-- What a resolver does: it settles its cell on its side with its first argument. -/
def resolve (cell : Nat) (side : Side) (args : List (Value C)) : Action C S (Value C) := do
  settle cell ⟨side, argument args 0⟩
  return .nil

namespace Step

/-- The outcome of a result on a side, or of an error. -/
def outcomeOf (side : Side) (onError : OnError) : Except Error (Value C) → Outcome (Value C)
  | .ok v => ⟨side, v⟩
  | .error e =>
    match onError with
    | .fail => ⟨.failure, failureValue e⟩
    | .substitute => ⟨side, failureValue e⟩

/-- The task that a function's result stands for. -/
def taskOf (insists : Option String) : Except Error (Value C) → Recipe C
  | .ok (.task t) => t.recipe
  | .ok v =>
    match insists with
    | none => .succeed v
    | some operation => .failFor (.typeMismatch operation "a Task" v.typeName)
  | .error e => .failFor e

/-- The task to go on as, given the outcome that arrived. -/
def next : Step C → Outcome (Value C) → Action C S (Recipe C)
  | .keep, o => return .settled o
  | .settle outcome, _ => return .settled outcome
  | .apply f rest side onError, o => do
    return .settled (outcomeOf side onError (← (call f (o.value :: rest)).attempt))
  | .follow f insists, o => do return taskOf insists (← (call f [o.value]).attempt)
  | .flatten, o => return taskOf none (.ok o.value)
  | .applyTo values, o =>
    match o.value with
    | .func f => return .tryMap f values
    | other => return .failFor (.typeMismatch "ap" "a Task of a function" other.typeName)
  | .clone, o => do return .settled (outcomeOf .success .fail (← (Generic.clone o.value).attempt))

end Step

namespace Recipe

/-- A cell for a run that others settle. -/
def newCell : Action C S Nat := Action.minting newId

/-- Starts a task. -/
def start : Recipe C → Action C S (Run C)
  | .settled outcome => return .settled outcome
  | .never => return .never
  | .procedure f => do
    let cell ← newCell
    let onFailure ← Action.minting (newFunc "fail" 1 (.resolver cell .failure))
    let onSuccess ← Action.minting (newFunc "succeed" 1 (.resolver cell .success))
    match ← (call f [.func onFailure, .func onSuccess]).attempt with
    | .ok _ => return .awaiting cell
    | .error e => do
      settle cell ⟨.failure, failureValue e⟩
      return .awaiting cell
  | .resolving outcomes => do
    let cell ← newCell
    outcomes.forM (settle cell)
    return .awaiting cell
  | .future f => do
    return .settled (Step.outcomeOf .success .fail (← (call f []).attempt))
  | .turns n next => return .turns n next
  | .chain first onSuccess onFailure => do return .chained (← start first) onSuccess onFailure
  | .parallel children => return .opening children

end Recipe

end DynamicDispatch
