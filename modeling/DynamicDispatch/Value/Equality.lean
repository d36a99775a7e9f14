import DynamicDispatch.Value.Basic

/-!
# Equality of values

Data are equal by structure, functions and tasks by identity. Two records are equal when their types
are the same one and their fields are equal, two union instances when their cases are too. A number
that is not a number equals nothing.
-/

namespace DynamicDispatch.Value

variable {C : Type}

mutual

/-- Whether two values are equal. -/
def equal : Value C → Value C → Bool
  | .nil, .nil => true
  | .bool a, .bool b => a == b
  | .number a, .number b => a == b
  | .text a, .text b => a == b
  | .list a, .list b => equalAll a b
  | .map a, .map b => equalEntries a b
  | .func f, .func g => f.id == g.id
  | .record s a, .record t b => s.id == t.id && equalAll a b
  | .union s i a, .union t j b => s.id == t.id && i == j && equalAll a b
  | .task s, .task t => s.id == t.id
  | .placeholder, .placeholder => true
  | _, _ => false

/-- Whether two lists have equal values at every position. -/
def equalAll : List (Value C) → List (Value C) → Bool
  | [], [] => true
  | a :: as, b :: bs => equal a b && equalAll as bs
  | _, _ => false

/-- Whether two lists of entries have the same keys and equal values at every position. -/
def equalEntries : List (String × Value C) → List (String × Value C) → Bool
  | [], [] => true
  | (k, a) :: as, (l, b) :: bs => k == l && equal a b && equalEntries as bs
  | _, _ => false

end

/-- Whether a list holds a value equal to the one given. -/
def memberOf (v : Value C) (xs : List (Value C)) : Bool := xs.any fun x => equal x v

end DynamicDispatch.Value
