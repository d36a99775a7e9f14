import DynamicDispatch.Task.Poll

/-!
# The scheduler

A main run and its children take turns, one each in a lap: the main run first, then the children in
the order in which they were started; a child started during a lap takes its first turn in it. Laps
go on while some run can get further, also when the main run has settled.
-/

namespace DynamicDispatch

variable {C S : Type}

/-- The outcome of a settled turn. -/
def Turn.outcome? : Turn C → Option (Outcome (Value C))
  | .settled outcome => some outcome
  | .pending _ => none

/-- Whether another turn would get anything further. -/
def Turn.canAdvance (w : World C S) : Turn C → Bool
  | .settled _ => false
  | .pending run => run.canAdvance w

namespace Schedule

/-- The schedule of a single run. -/
def ofRun (run : Run C) : Schedule C := ⟨.pending run, [], []⟩

/-- Takes over the children started since the last time. -/
def takeStarted : Action C S (List (Child C)) := do
  let started := (← Action.world).started
  Action.modify fun w => { w with started := [] }
  return started

/-- Whether another lap would get anything further. -/
def canAdvance (w : World C S) (s : Schedule C) : Bool :=
  s.main.canAdvance w || s.turned.any fun child => child.run.canAdvance w

/-- Gives one turn and goes on with the schedule that is left. -/
def drive (s : Schedule C) : Action C S (Option (Outcome (Value C))) :=
  match s.waiting with
  | child :: waiting => do
    match ← child.run.poll with
    | .settled outcome => do
      report child outcome
      Action.request (.drive ⟨s.main, waiting ++ (← takeStarted), s.turned⟩)
    | .pending run =>
      Action.request (.drive
        ⟨s.main, waiting ++ (← takeStarted), s.turned ++ [{ child with run }]⟩)
  | [] => do
    if s.canAdvance (← Action.world) then
      let main ← match s.main with
        | .settled outcome => pure (Turn.settled outcome)
        | .pending run => run.poll
      Action.request (.drive ⟨main, s.turned ++ (← takeStarted), []⟩)
    else return s.main.outcome?

end Schedule

/-- Runs a task on its own: its outcome, if it settles. -/
def Recipe.run (r : Recipe C) : Action C S (Option (Outcome (Value C))) := do
  Action.request (.drive (.ofRun (← r.start)))

end DynamicDispatch
