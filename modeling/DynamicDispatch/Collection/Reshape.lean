import DynamicDispatch.Collection.Fold

/-!
# Reshaping collections and combining functions

Collections as lists of values, of pairs or of rows, collections poured into each other, and functions
applied one after the other or inside containers.
-/

namespace DynamicDispatch.Collection

variable {C S : Type}

/-- The first values that a collection iterates over. -/
def take (n : Nat) (xs : Value C) : Action C S (Value C) := do
  return .list ((← Generic.iterator xs).take n)

/-- The step of `into`. -/
def conjStep (args : List (Value C)) : Action C S (Value C) :=
  Generic.conj (argument args 0) (argument args 1)

/-- A collection with every value of another one added. -/
def into (target source : Value C) : Action C S (Value C) := do
  Generic.foldl (← Action.minting (newFunc "conj" 2 .conjStep)) target source

/-- The step of `vals`. -/
def pushStep (args : List (Value C)) : Action C S (Value C) :=
  match argument args 1 with
  | .list acc => return .list (acc ++ [argument args 0])
  | other => .fail (.typeMismatch "vals" "an Array accumulator" other.typeName)

/-- The values of a collection in the order of its fold. -/
def vals (xs : Value C) : Action C S (Value C) := do
  Generic.foldl (← Action.minting (newFunc "push" 2 .pushStep)) (.list []) xs

/-- The pairs of key and value in the order of the keys. -/
def kvp (xs : Value C) : Action C S (Value C) := do
  return .list (← (← keyList xs).mapM fun key => do
    return .list [key, ← getOrElse key .nil xs])

/-- The least of the counts; zero when there are none. -/
def shortest : List Nat → Nat
  | [] => 0
  | n :: ns => ns.foldl min n

/-- The values at every position that all collections have, a row for each. -/
def zip (xss : List (Value C)) : Action C S (Value C) := do
  let counts ← xss.mapM Generic.count
  return .list (← (List.range (shortest counts)).mapM fun i => do
    return .list (← xss.mapM (getOrElse (.number (Number.ofCount i)) .nil)))

/-- A function applied inside a container, and the containers it gives joined. -/
def andThen (f : Func C) (m : Value C) : Action C S (Value C) := do
  Generic.flatten (← Generic.map f m)

/-- Applies functions one after the other, the first one to all arguments; with no function, gives
the first argument. -/
def runPipe : (stages : List (Func C)) → List (Value C) → Action C S (Value C)
  | [], args => return argument args 0
  | f :: rest, args => do rest.foldlM (fun acc g => call g [acc]) (← call f args)

/-- The functions applied from the first to the last, as one function. -/
def pipe (stages : List (Func C)) : StateM Nat (Func C) :=
  newFunc "pipe" ((stages.head?.map (·.arity)).getD 1) (.pipe stages)

/-- The functions applied from the last to the first, as one function. -/
def comp (stages : List (Func C)) : StateM Nat (Func C) := pipe stages.reverse

/-- A function of two arguments applied inside two containers. -/
def liftA2 (f : Func C) (a b : Value C) : Action C S (Value C) := do
  let partials ← Generic.map (← Action.minting (curry f)) a
  Generic.ap b partials

end DynamicDispatch.Collection
