import DynamicDispatch.Script.Operation.Basic
import DynamicDispatch.Task.Schedule

/-!
# Operations on tasks

New tasks, tasks built from tasks, and the two ways to run one.
-/

namespace DynamicDispatch.Script.Operation

open Argument

/-- An operation that gives a new task. -/
def newTask (name : String) (recipe : List Datum → Eval (Recipe Expr)) : String × Operation :=
  (name, fun args => do
    return .task (← Action.minting (DynamicDispatch.newTask (← recipe args))))

/-- An operation that gives a new task from a function and a task. -/
def fromFunc (name : String) (recipe : Func Expr → Recipe Expr → Recipe Expr) :
    String × Operation :=
  newTask name fun args => do
    let f ← func name (argument args 0)
    return recipe f (← task name (argument args 1)).recipe

/-- An operation that gives a new task from two functions and a task. -/
def fromFuncs (name : String) (recipe : Func Expr → Func Expr → Recipe Expr → Recipe Expr) :
    String × Operation :=
  newTask name fun args => do
    let f ← func name (argument args 0)
    let g ← func name (argument args 1)
    return recipe f g (← task name (argument args 2)).recipe

/-- An operation that gives a new task from a function, a value and a task. -/
def fromFold (name : String) (recipe : Func Expr → Datum → Recipe Expr → Recipe Expr) :
    String × Operation :=
  newTask name fun args => do
    let f ← func name (argument args 0)
    return recipe f (argument args 1) (← task name (argument args 2)).recipe

/-- The name of a channel. -/
def sideName : Side → String
  | .failure => "failure"
  | .success => "success"

/-- An outcome as a list of its channel and value. -/
def outcomeDatum (o : Outcome Datum) : Datum := .list [.text (sideName o.side), o.value]

/-- The outcome that a resolver's name and a value stand for. -/
def resolution (name : String) : Datum → Eval (Outcome Datum)
  | .list [.text "fail", v] => return ⟨.failure, v⟩
  | .list [.text "succeed", v] => return ⟨.success, v⟩
  | other => refuse name "a resolution" other

/-- New tasks and tasks built from tasks. -/
def tasks : List (String × Operation) :=
  [newTask "t_of" fun args => return .succeed (argument args 0),
    newTask "t_succeed" fun args => return .succeed (argument args 0),
    newTask "t_fail" fun args => return .fail (argument args 0),
    newTask "t_none" fun _ => return .never,
    newTask "t_from_func" fun args => do
      return .procedure (← func "t_from_func" (argument args 0)),
    newTask "t_from_future" fun args => do
      return .future (← func "t_from_future" (argument args 0)),
    newTask "t_new" fun args => do
      return .resolving (← (← list "t_new" (argument args 0)).mapM (resolution "t_new")),
    newTask "t_turns" fun args => do
      let n ← count "t_turns" (argument args 0)
      return .turns n (← task "t_turns" (argument args 1)).recipe,
    newTask "t_flatten" fun args => do return (← task "t_flatten" (argument args 0)).recipe.flatten,
    newTask "t_parallel" fun args => do
      let children ← (← list "t_parallel" (argument args 0)).mapM (task "t_parallel")
      return .parallel (children.map (·.recipe)),
    fromFunc "t_map" Recipe.map,
    fromFunc "t_try_map" Recipe.tryMap,
    fromFunc "t_and_then" Recipe.andThen,
    fromFunc "t_try_and_then" (Recipe.tryAndThen "t_try_and_then"),
    fromFold "t_fold_left" Recipe.foldLeft,
    fromFold "t_fold_right" Recipe.foldRight,
    fromFuncs "t_bimap" Recipe.bimap,
    fromFuncs "t_perform" Recipe.perform]

/-- Running and comparing tasks. -/
def runs : List (String × Operation) :=
  [("t_same", fun args => do
      let s ← task "t_same" (argument args 0)
      let t ← task "t_same" (argument args 1)
      return .bool (s.id == t.id)),
    ("run", fun args => do
      match ← (← task "run" (argument args 0)).recipe.run with
      | some o => return outcomeDatum o
      | none => return .text "pending"),
    ("fork", fun args => do
      let onFailure ← func "fork" (argument args 0)
      let onSuccess ← func "fork" (argument args 1)
      let t ← task "fork" (argument args 2)
      match ← (t.recipe.bimap onSuccess onFailure).run with
      | some o => return .list [outcomeDatum o]
      | none => do
        Eval.log (.text "fork pending")
        return .list [])]

end DynamicDispatch.Script.Operation
