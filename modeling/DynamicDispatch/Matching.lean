import DynamicDispatch.Standard

/-!
# Matching on the cases of a union

Handlers must cover every case of the subject's type, whichever case the subject holds, before any
of them runs. The handler receives the fields as its arguments. Handlers are listed by the names of
cases, with one name that stands for every case, or put together arm by arm.
-/

namespace DynamicDispatch

variable {C S : Type}

namespace Matching

/-- The name under which a list has the handler of the cases without one of their own. -/
def wildcard : String := "_"

/-- The subject when it is a union instance: its type, the name of its case, and its fields. -/
def subject : Value C → Action C S (UnionType (Value C) × String × List (Value C))
  | .union type index fields => return (type, type.caseName index, fields)
  | other => do .fail (.typeMismatch "case_of" "a union type" (← Generic.display other))

/-- Refuses handlers that leave cases of a type uncovered. -/
def checkExhaustive (type : UnionType (Value C)) (handled : List String) (hasWildcard : Bool) :
    Except Error Unit :=
  if hasWildcard then .ok ()
  else
    let missing := type.caseNames.filter fun case => !handled.contains case
    if missing.isEmpty then .ok () else .error (.nonExhaustiveMatch type.name missing)

/-- The first handler that is listed under a name. -/
def handler? (name : String) (handlers : List (String × Func C)) : Option (Func C) :=
  (handlers.find? (·.1 == name)).map (·.2)

end Matching

open Matching

/-- Calls the handler listed for the subject's case, or else the one for every case, on the subject's
fields. -/
def caseOf (handlers : List (String × Func C)) (v : Value C) : Action C S (Value C) := do
  let (type, case, fields) ← subject v
  let otherwise := handler? wildcard handlers
  .done (checkExhaustive type (handlers.map (·.1)) otherwise.isSome)
  match (handler? case handlers).or otherwise with
  | some f => call f fields
  | none => .fail (.nonExhaustiveMatch type.name [case])

/-- Handlers put together arm by arm, and one for the cases without an arm. No name stands for every
case here. -/
structure Cases (C : Type) where
  arms : List (String × Func C) := []
  otherwise : Option (Func C) := none

namespace Cases

/-- The handlers with one more arm, after the others. -/
def on (cases : Cases C) (case : String) (f : Func C) : Cases C :=
  { cases with arms := cases.arms ++ [(case, f)] }

/-- The handlers with one for the cases without an arm, in place of an earlier one. -/
def orElse (cases : Cases C) (f : Func C) : Cases C := { cases with otherwise := some f }

/-- Handlers put together from the given arms in their order. -/
def ofArms (arms : List (String × Func C)) : Cases C :=
  arms.foldl (fun cases (case, f) => cases.on case f) {}

/-- Takes out the first arm of the subject's case and calls it on the subject's fields, or else calls
the handler of the cases without an arm. -/
def run (cases : Cases C) (v : Value C) : Action C S (Value C) := do
  let (type, case, fields) ← subject v
  .done (checkExhaustive type (cases.arms.map (·.1)) cases.otherwise.isSome)
  match (cases.arms.findIdx? (·.1 == case)).bind (cases.arms[·]?) with
  | some (_, arm) => call arm fields
  | none =>
    match cases.otherwise with
    | some f => call f fields
    | none => .fail (.nonExhaustiveMatch type.name [case])

end Cases

end DynamicDispatch
