import DynamicDispatch.Proofs.Action.Run

/-!
# What an action asks for

A trace lists the requests that an action makes, in order, beside its result and the world it leaves.
It adds the requests to what a run gives and changes nothing else, so that "this function is called
once, on these arguments" can be read off it.
-/

namespace DynamicDispatch

variable {C S α β : Type}

/-- What is observed of an action that ends. -/
structure Trace (C S α : Type) where
  /-- What the action asked for, in order. -/
  asked : List (Request C)
  result : Except Error α
  /-- The world that the action left. -/
  world : World C S

/-- What is observed when something has been asked for before. -/
def Trace.after (earlier : List (Request C)) (t : Trace C S α) : Trace C S α :=
  { t with asked := earlier ++ t.asked }

/-- The world in which some identities have been handed out. -/
def World.minted (w : World C S) (count : Nat) : World C S := { w with nextId := w.nextId + count }

/-- Handing out identities twice is handing out as many at once. -/
theorem World.minted_minted (w : World C S) (count more : Nat) :
    (w.minted count).minted more = w.minted (count + more) := by
  simp [World.minted, Nat.add_assoc]

namespace Action

/-- Runs an action and lists what it asks for. -/
def trace (answer : Answering C S) : Action C S α → World C S → Option (Trace C S α)
  | .done r, w => some ⟨[], r, w⟩
  | .ask q next, w =>
    match answer q w with
    | some (r, w) => ((next r).trace answer w).map fun t => { t with asked := q :: t.asked }
    | none => none
  | .read next, w => (next w).trace answer w
  | .write w p, _ => p.trace answer w

/-- A run is the trace without the list of requests. -/
theorem run_eq_trace (answer : Answering C S) (p : Action C S α) (w : World C S) :
    p.run answer w = (p.trace answer w).map fun t => (t.result, t.world) := by
  induction p generalizing w with
  | done r => rfl
  | ask q next ih =>
    simp only [run, trace]
    cases answer q w with
    | none => rfl
    | some x => simpa [Option.map_map, Function.comp_def] using ih x.1 x.2
  | read next ih => exact ih w w
  | write w' p ih => exact ih w'

/-- A call asks for the result of the function, and that is all it asks for. -/
theorem trace_call (answer : Answering C S) (f : Func C) (args : List (Value C)) (w : World C S) :
    (call f args).trace answer w =
      (answer (.call f args) w).map fun x => ⟨[.call f args], x.1, x.2⟩ := by
  simp only [call, request, trace]
  cases answer (.call f args) w <;> rfl

end Action

end DynamicDispatch
