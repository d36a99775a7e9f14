import DynamicDispatch.Value.Basic

/-!
# Tasks built from tasks

Every combinator is a chain: a first task, and a step for each channel on which it may end. The
direct combinators substitute the text of an error for the result of the function that gave it; those
whose name begins with `try`, and the methods of the standard protocols, fail with it.
-/

namespace DynamicDispatch.Recipe

variable {C : Type}

/-- Succeeds with a value. -/
def succeed (v : Value C) : Recipe C := .settled ⟨.success, v⟩

/-- Fails with a value. -/
def fail (v : Value C) : Recipe C := .settled ⟨.failure, v⟩

/-- Applies `f` to a success. -/
def map (f : Func C) (r : Recipe C) : Recipe C := .chain r (.apply f [] .success .substitute) .keep

/-- Applies `f` to a success and fails with its error. -/
def tryMap (f : Func C) (r : Recipe C) : Recipe C := .chain r (.apply f [] .success .fail) .keep

/-- Goes on from a success as the task that `f` gives. -/
def andThen (f : Func C) (r : Recipe C) : Recipe C := .chain r (.follow f none) .keep

/-- Goes on from a success as the task that `f` must give. -/
def tryAndThen (operation : String) (f : Func C) (r : Recipe C) : Recipe C :=
  .chain r (.follow f (some operation)) .keep

/-- Goes on from a success that is a task as that task. -/
def flatten (r : Recipe C) : Recipe C := .chain r .flatten .keep

/-- Succeeds with `f` of a success and `initial`, or with `initial` after a failure. -/
def foldLeft (f : Func C) (initial : Value C) (r : Recipe C) : Recipe C :=
  .chain r (.apply f [initial] .success .substitute) (.settle ⟨.success, initial⟩)

/-- The same as `foldLeft`: a task holds at most one value. -/
def foldRight (f : Func C) (initial : Value C) (r : Recipe C) : Recipe C := foldLeft f initial r

/-- Applies a function on each channel and stays on it. -/
def bimap (onSuccess onFailure : Func C) (r : Recipe C) : Recipe C :=
  .chain r (.apply onSuccess [] .success .substitute) (.apply onFailure [] .failure .substitute)

/-- Applies a function on each channel and succeeds. -/
def perform (onFailure onSuccess : Func C) (r : Recipe C) : Recipe C :=
  .chain r (.apply onSuccess [] .success .substitute) (.apply onFailure [] .success .substitute)

/-- Applies a function on each channel, stays on it, and fails with an error of either function. -/
def tryBimap (onSuccess onFailure : Func C) (r : Recipe C) : Recipe C :=
  .chain r (.apply onSuccess [] .success .fail) (.apply onFailure [] .failure .fail)

/-- Succeeds with `f` of a success and `initial`, failing with an error of `f`, or with `initial`
after a failure. -/
def tryFold (f : Func C) (initial : Value C) (r : Recipe C) : Recipe C :=
  .chain r (.apply f [initial] .success .fail) (.settle ⟨.success, initial⟩)

/-- Succeeds with a copy of a success. -/
def cloned (r : Recipe C) : Recipe C := .chain r .clone .keep

/-- Applies the function that one task succeeds with to the success of another one. -/
def ap (values functions : Recipe C) : Recipe C := .chain functions (.applyTo values) .keep

end DynamicDispatch.Recipe
