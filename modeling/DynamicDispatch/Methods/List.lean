import DynamicDispatch.Methods.Argument

/-!
# Methods of lists

Positions are the keys of a list. Looking up a position that is not there gives none, and writing or
removing there changes nothing.
-/

namespace DynamicDispatch.Methods

variable {C S : Type}

/-- The elements of the lists among the elements, and the other elements themselves. -/
def flattened (xs : List (Value C)) : List (Value C) :=
  xs.flatMap fun
    | .list inner => inner
    | other => [other]

/-- A list followed by the elements of a list, or by a value that is none. -/
def appended (xs : List (Value C)) : Value C → List (Value C)
  | .list ys => xs ++ ys
  | x => xs ++ [x]

/-- Applies a function to every value; a result that is a list gives its elements. -/
def applyToAll (values : Value C) : Value C → Action C S (List (Value C))
  | .func f => do
    match ← Generic.map f values with
    | .list ys => return ys
    | other => return [other]
  | other => mismatch .ap "an Array of functions" other

/-- What lists do. -/
def list : Method → Implementation C S
  | .render => fun args => do
    let xs ← listSubject .render args
    if xs.isEmpty then return .text "[]"
    else return .text ("[ " ++ ", ".intercalate (← Generic.renderAll xs) ++ " ]")
  | .clone => fun args => do return .list (← (← listSubject .clone args).mapM Generic.clone)
  | .shallowClone => identity
  | .count => fun args => do return countValue (← listSubject .count args).length
  | .get => fun args => do
    let xs ← listSubject .get args
    let found := (position? (argument args 0)).bind (xs[·]?)
    return Maybe.of (found.getD .nil)
  | .first => fun args => do return Maybe.of ((← listSubject .first args).headD .nil)
  | .rest => fun args => do return .list ((← listSubject .rest args).drop 1)
  | .conj => fun args => do return .list ((← listSubject .conj args) ++ [argument args 0])
  | .iterator => fun args => do return .list (← listSubject .iterator args)
  | .keys => fun args => do return .list (positionKeys (← listSubject .keys args).length)
  | .assoc => fun args => do
    let xs ← listSubject .assoc args
    match position? (argument args 0) with
    | some i => return .list (xs.set i (argument args 1))
    | none => return .list xs
  | .dissoc => fun args => do
    let xs ← listSubject .dissoc args
    match position? (argument args 0) with
    | some i => return .list (xs.eraseIdx i)
    | none => return .list xs
  | .empty => fun _ => return .list []
  | .append => fun args => do return .list (appended (← listSubject .append args) (argument args 0))
  | .foldl => fun args => do
    let f ← functionAt .foldl args 0
    fold f (argument args 1) (← listSubject .foldl args)
  | .foldr => fun args => do
    let f ← functionAt .foldr args 0
    fold f (argument args 1) (← listSubject .foldr args).reverse
  | .map => fun args => do
    let f ← functionAt .map args 0
    return .list (← (← listSubject .map args).mapM fun x => call f [x])
  | .of => fun args => return .list [argument args 0]
  | .flatten => fun args => do return .list (flattened (← listSubject .flatten args))
  | .ap => fun args => do
    let functions ← listSubject .ap args
    return .list (← functions.mapM (applyToAll (argument args 0))).flatten
  | m => unprovided m

end DynamicDispatch.Methods
