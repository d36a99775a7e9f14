import DynamicDispatch.Task.Join
import DynamicDispatch.Task.Start

/-!
# Giving a run its turn

A run that is given a turn does what it can without waiting. It ends with an outcome, or with what
is left to do: it waits for a cell or a mailbox, has given up its turn, or never settles.
-/

namespace DynamicDispatch

variable {C S : Type}

/-- The mailbox of a parallel task. -/
def mailbox (id : Nat) : Action C S (Mailbox C) := do
  return ((← Action.world).mailboxes.get? id).getD ⟨[], 0⟩

/-- Replaces the mailbox of a parallel task. -/
def setMailbox (id : Nat) (m : Mailbox C) : Action C S Unit :=
  Action.modify fun w => { w with mailboxes := w.mailboxes.insert id m }

/-- Reports the outcome of a child to its parent. -/
def report (child : Child C) (outcome : Outcome (Value C)) : Action C S Unit := do
  let m ← mailbox child.mailbox
  setMailbox child.mailbox ⟨m.reports ++ [(child.position, outcome)], m.senders - 1⟩

namespace Run

/-- Starts a task and gives it its turn. -/
def enter (r : Recipe C) : Action C S (Turn C) := do Action.request (.poll (← r.start))

/-- Starts the children of a parallel task in order. -/
def startChildren (box : Nat) (children : List (Recipe C)) : Action C S Unit := do
  let runs ← children.mapM Recipe.start
  let started := runs.mapIdx fun position run => (⟨box, position, run⟩ : Child C)
  Action.modify fun w => { w with started := w.started ++ started }

/-- Reads what has arrived in a mailbox. -/
def read (box : Nat) (join : Join C) : Action C S (Turn C) := do
  let m ← mailbox box
  setMailbox box ⟨[], m.senders⟩
  match join.drain m.senders m.reports with
  | .inl outcome => return .settled outcome
  | .inr join => return .pending (.joining box join)

/-- Gives a run its turn. -/
def poll : Run C → Action C S (Turn C)
  | .settled outcome => return .settled outcome
  | .never => return .pending .never
  | .awaiting cell => do
    match (← Action.world).cells.get? cell with
    | some outcome => return .settled outcome
    | none => return .pending (.awaiting cell)
  | .turns 0 next => enter next
  | .turns (n + 1) next => return .pending (.turns n next)
  | .chained first onSuccess onFailure => do
    match ← poll first with
    | .pending rest => return .pending (.chained rest onSuccess onFailure)
    | .settled outcome =>
      let step := match outcome.side with
        | .success => onSuccess
        | .failure => onFailure
      enter (← step.next outcome)
  | .opening children => do
    let box ← Action.minting newId
    setMailbox box ⟨[], children.length⟩
    startChildren box children
    read box (.start children.length)
  | .joining box join => read box join

/-- Whether a turn would get a run any further. -/
def canAdvance (w : World C S) : Run C → Bool
  | .settled _ => true
  | .never => false
  | .awaiting cell => (w.cells.get? cell).isSome
  | .turns _ _ => true
  | .chained first _ _ => canAdvance w first
  | .opening _ => true
  | .joining box join =>
    match w.mailboxes.get? box with
    | some m => !m.reports.isEmpty || m.senders == 0 || join.missing == 0
    | none => true

end Run

end DynamicDispatch
