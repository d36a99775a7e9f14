import DynamicDispatch.Script.Evaluate

/-!
# Sessions

A session evaluates the expressions of a script one after the other in one world. A failing
expression does not stop the later ones. Each is answered by its value or error and by what was
logged on the way.
-/

namespace DynamicDispatch.Script

/-- The answer to one expression. -/
structure Reply where
  result : Except Error Datum
  /-- The values logged, in logging order. -/
  logged : List Datum

/-- The world of a script. -/
abbrev Session := World Expr State

namespace Session

/-- The session in which a script starts. -/
def initial : Session := World.initial State.initial

/-- How deep calls may be nested. -/
def depth : Nat := 1000000

/-- The session with an empty log, and what was logged. -/
def takeLog (s : Session) : Session × List Datum :=
  ({ s with host := { s.host with logged := [] } }, s.host.logged.reverse)

/-- Evaluates one expression. -/
def step (s : Session) (e : Expr) : Reply × Session :=
  match (e.eval []).runAt depth s with
  | some (result, after) =>
    let (after, logged) := takeLog after
    (⟨result, logged⟩, after)
  | none => (⟨.error (.invalidArgument "script" "calls are nested too deeply"), []⟩, s)

/-- Evaluates a script. -/
def replies (s : Session) : List Expr → List Reply
  | [] => []
  | e :: es => (s.step e).1 :: replies (s.step e).2 es

end Session

/-- The answers to the expressions of a script. -/
def run (script : List Expr) : List Reply := Session.initial.replies script

end DynamicDispatch.Script
