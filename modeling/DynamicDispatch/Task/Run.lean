import DynamicDispatch.Value.Basic

/-!
# Started tasks

A run is what is left of a started task. Parallel tasks run as children, each of which reports its
outcome to the mailbox of its parent; the parent joins the reports in their order of arrival.
-/

namespace DynamicDispatch

/-- The reports of the children of one parallel task that have not been read, and the number of
children that have not reported. -/
structure Mailbox (C : Type) where
  reports : List (Nat × Outcome (Value C))
  senders : Nat

/-- What a parallel task has received: the successes by position, and how many are missing. -/
structure Join (C : Type) where
  slots : List (Option (Value C))
  missing : Nat

/-- What is left to do of a started task. -/
inductive Run (C : Type) where
  | settled (outcome : Outcome (Value C))
  | never
  /-- Waits for a cell to be settled. -/
  | awaiting (cell : Nat)
  /-- Gives up its turn before it starts another task. -/
  | turns (n : Nat) (next : Recipe C)
  /-- Goes on from the outcome of another run. -/
  | chained (first : Run C) (onSuccess onFailure : Step C)
  /-- Has not started its children. -/
  | opening (children : List (Recipe C))
  /-- Waits for the reports of its children. -/
  | joining (mailbox : Nat) (join : Join C)

/-- A run on behalf of a parallel task. -/
structure Child (C : Type) where
  mailbox : Nat
  position : Nat
  run : Run C

/-- The answer of a run that was given a turn. -/
inductive Turn (C : Type) where
  | settled (outcome : Outcome (Value C))
  | pending (rest : Run C)

/-- A run that is driven to its end: the main run, the children that still have to take their turn
in this lap, and those that have taken it. -/
structure Schedule (C : Type) where
  main : Turn C
  waiting : List (Child C)
  turned : List (Child C)

end DynamicDispatch
