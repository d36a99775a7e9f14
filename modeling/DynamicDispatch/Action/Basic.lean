import DynamicDispatch.Error
import DynamicDispatch.World

/-!
# Actions

An action is what an operation does, as a finite tree: it ends with a result or an error, reads or
replaces the world, or asks for something whose answer it cannot compute itself, such as the result
of a function it was given. What a request means is said elsewhere, once for all operations; here it
is a node. So "the function is called once, on these arguments" is a statement about a tree.
-/

namespace DynamicDispatch

variable {C S : Type}

/-- What an action can ask for. -/
inductive Request (C : Type) where
  /-- The result of a function. -/
  | call (f : Func C) (args : List (Value C))
  /-- Whether two values are equal key by key, at every depth. -/
  | deepEqual (a b : Value C)
  /-- A collection with a nested set of changes made. -/
  | evolve (changes subject : Value C)
  /-- The answer of a run that is given a turn. -/
  | poll (run : Run C)
  /-- The outcome of a run that is driven as far as it goes, if it settles. -/
  | drive (schedule : Schedule C)

/-- The type of the answer to a request. -/
@[reducible]
def Request.Answer : Request C → Type
  | .call _ _ => Value C
  | .deepEqual _ _ => Bool
  | .evolve _ _ => Value C
  | .poll _ => Turn C
  | .drive _ => Option (Outcome (Value C))

/-- What an operation does. -/
inductive Action (C S α : Type) where
  | done (result : Except Error α)
  /-- Asks for something and goes on from the answer or from an error. -/
  | ask (request : Request C) (next : Except Error request.Answer → Action C S α)
  /-- Goes on from the current world. -/
  | read (next : World C S → Action C S α)
  /-- Replaces the world and goes on. -/
  | write (world : World C S) (next : Action C S α)

namespace Action

variable {α β γ : Type}

/-- Ends with a result. -/
def ok (a : α) : Action C S α := .done (.ok a)

/-- Ends with an error. -/
def fail (e : Error) : Action C S α := .done (.error e)

/-- Goes on from the result of an action; an error ends the whole. -/
def bind : Action C S α → (α → Action C S β) → Action C S β
  | .done (.ok a), f => f a
  | .done (.error e), _ => .done (.error e)
  | .ask q next, f => .ask q fun r => (next r).bind f
  | .read next, f => .read fun w => (next w).bind f
  | .write w p, f => .write w (p.bind f)

instance : Monad (Action C S) where
  pure := ok
  bind := bind

/-- The result or error of an action, as a result. -/
def attempt : Action C S α → Action C S (Except Error α)
  | .done r => .done (.ok r)
  | .ask q next => .ask q fun r => (next r).attempt
  | .read next => .read fun w => (next w).attempt
  | .write w p => .write w p.attempt

/-- The current world. -/
def world : Action C S (World C S) := .read ok

/-- Changes the world. -/
def modify (change : World C S → World C S) : Action C S Unit := .read fun w => .write (change w) (ok ())

/-- The answer to a request. -/
def request (q : Request C) : Action C S q.Answer := .ask q .done

/-- A computation that only takes new identities. -/
def minting (x : StateM Nat α) : Action C S α :=
  .read fun w => .write { w with nextId := (x.run w.nextId).2 } (ok (x.run w.nextId).1)

/-- An action run in a world, with the requests it makes answered by `answer`; nothing when an answer
is not there. -/
def run (answer : (q : Request C) → World C S → Option (Except Error q.Answer × World C S)) :
    Action C S α → World C S → Option (Except Error α × World C S)
  | .done r, w => some (r, w)
  | .ask q next, w =>
    match answer q w with
    | some (r, w) => (next r).run answer w
    | none => none
  | .read next, w => (next w).run answer w
  | .write w p, _ => p.run answer w

@[simp]
theorem bind_done_ok (a : α) (f : α → Action C S β) : bind (.done (.ok a)) f = f a := rfl

@[simp]
theorem bind_done_error (e : Error) (f : α → Action C S β) :
    bind (.done (.error e)) f = .done (.error e) := rfl

theorem bind_ok (p : Action C S α) : p.bind ok = p := by
  induction p with
  | done r => cases r <;> rfl
  | ask q next ih => simp only [bind, ih]
  | read next ih => simp only [bind, ih]
  | write w p ih => simp only [bind, ih]

theorem bind_assoc (p : Action C S α) (f : α → Action C S β) (g : β → Action C S γ) :
    (p.bind f).bind g = p.bind fun a => (f a).bind g := by
  induction p with
  | done r => cases r <;> rfl
  | ask q next ih => simp only [bind, ih]
  | read next ih => simp only [bind, ih]
  | write w p ih => simp only [bind, ih]

instance : LawfulMonad (Action C S) :=
  LawfulMonad.mk' (Action C S) bind_ok (fun _ _ => rfl) bind_assoc

end Action

/-- Calls a function. -/
def call (f : Func C) (args : List (Value C)) : Action C S (Value C) := Action.request (.call f args)

/-- An identity that no function, task or type has yet. -/
def newId : StateM Nat Nat := fun n => (n, n + 1)

/-- A function with an identity of its own. -/
def newFunc (name : String) (arity : Nat) (code : Code C) : StateM Nat (Func C) :=
  return ⟨← newId, name, arity, code⟩

/-- A task with an identity of its own. -/
def newTask (recipe : Recipe C) : StateM Nat (Task C) := return ⟨← newId, recipe⟩

end DynamicDispatch
