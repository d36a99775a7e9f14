import DynamicDispatch.Registry
import DynamicDispatch.Task.Run

/-!
# The world

Everything that lasts from one operation to the next: the registry, the methods of multimethods, the
state of started tasks, the supply of identities, and the state of the embedding program.
-/

namespace DynamicDispatch

/-- The methods of a multimethod: pairs of matcher and handler in order of definition, and the
handler of last resort. -/
structure MethodList (C : Type) where
  pairs : List (Value C × Func C) := []
  wildcard : Option (Func C) := none

/-- The shared state. -/
structure World (C S : Type) where
  registry : Registry C
  multimethods : Table Nat (MethodList C)
  /-- The cells of started tasks that have been settled. -/
  cells : Table Nat (Outcome (Value C))
  mailboxes : Table Nat (Mailbox C)
  /-- Children started since the scheduler last took them over. -/
  started : List (Child C)
  /-- The next identity to hand out. -/
  nextId : Nat
  /-- The state of the embedding program. -/
  host : S

end DynamicDispatch
