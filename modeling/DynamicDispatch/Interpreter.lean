import DynamicDispatch.Collection.Comparison
import DynamicDispatch.Collection.Reshape
import DynamicDispatch.Methods.Provided
import DynamicDispatch.Multimethod
import DynamicDispatch.Task.Schedule

/-!
# What requests mean

Every request is answered by the action it stands for, whose own requests are answered in turn. The
answers are computed to a depth; a deeper computation has no result at that depth. The code of the
embedding program takes part through `Embedding`.
-/

namespace DynamicDispatch

variable {C S : Type}

/-- What the functions of an embedding program do. -/
class Embedding (C S : Type) where
  /-- What a function does with its arguments. -/
  body : C → List (Value C) → Action C S (Value C)

/-- What a function does with its arguments. -/
def Callable.body [Embedding C S] (f : Func C) (args : List (Value C)) : Action C S (Value C) :=
  match f.code with
  | .host c => Embedding.body c args
  | .builtin family method => family.implementation method args
  | .curried n g => Currying.supply n g args
  | .collecting n g slots => Currying.supply n g (Currying.fill slots args)
  | .pipe stages => Collection.runPipe stages args
  | .recordConstructor type => type.construct args
  | .caseConstructor type case => type.construct case args
  | .dispatcher protocol method => protocol.call method args
  | .multimethod id dispatch => Multimethod.call ⟨id, dispatch⟩ args
  | .resolver cell side => resolve cell side args
  | .anyStep g => Collection.anyStep g args
  | .everyStep g => Collection.everyStep g args
  | .onValue g => call g [argument args 1]
  | .conjStep => Collection.conjStep args
  | .pushStep => Collection.pushStep args

/-- The action that a request stands for. -/
def Request.action [Embedding C S] : (q : Request C) → Action C S q.Answer
  | .call f args => f.body args
  | .deepEqual a b => Collection.deepEqual a b
  | .evolve changes subject => Collection.evolve changes subject
  | .poll run => run.poll
  | .drive schedule => schedule.drive

/-- The answer to a request, computed to a depth. -/
def answer [Embedding C S] : (depth : Nat) → (q : Request C) → World C S →
    Option (Except Error q.Answer × World C S)
  | 0, _, _ => none
  | depth + 1, q, w => q.action.run (answer depth) w

/-- The result of an action and the world after it, computed to a depth. -/
def Action.runAt [Embedding C S] {α : Type} (depth : Nat) (p : Action C S α) (w : World C S) :
    Option (Except Error α × World C S) := p.run (answer depth) w

end DynamicDispatch
