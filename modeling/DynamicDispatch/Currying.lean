import DynamicDispatch.Action.Basic

/-!
# Currying

A curried function collects arguments over several calls. Holes keep a slot open for a later call
and do not count; arguments beyond the ones asked for are dropped.
-/

namespace DynamicDispatch

variable {C S : Type}

namespace Currying

/-- The slots with their holes filled from the left by later arguments; a hole for which none is left
becomes nil, and arguments left over follow the slots. -/
def fill : (slots later : List (Value C)) → List (Value C)
  | [], later => later
  | .placeholder :: slots, [] => .nil :: fill slots []
  | .placeholder :: slots, v :: later => v :: fill slots later
  | slot :: slots, later => slot :: fill slots later

/-- The number of arguments that are not holes. -/
def given (args : List (Value C)) : Nat := args.countP (!·.isPlaceholder)

/-- Calls `f` once `n` arguments are there; until then, a function that collects the others. -/
def supply (n : Nat) (f : Func C) (args : List (Value C)) : Action C S (Value C) :=
  let slots := args.take n
  if n ≤ given slots then call f slots
  else return .func (← Action.minting (newFunc f.name (n - given slots) (.collecting n f slots)))

end Currying

/-- A function that collects `n` arguments for `f`; below two there is nothing to collect, and it is
`f` itself. -/
def curryN (n : Nat) (f : Func C) : StateM Nat (Func C) :=
  if n < 2 then return f else newFunc f.name n (.curried n f)

/-- A function that collects as many arguments as `f` declares. -/
def curry (f : Func C) : StateM Nat (Func C) := curryN f.arity f

end DynamicDispatch
