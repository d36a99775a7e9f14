import DynamicDispatch.Methods.Argument

/-!
# Methods of maps

A map visits its entries in the order of their keys. It is joined with a pair of key and value, or
with another map.
-/

namespace DynamicDispatch.Methods

variable {C S : Type}

/-- The entries with a pair put in, or with those of another map. -/
def merge (m : Method) (entries : List (String × Value C)) : Value C → Action C S (Value C)
  | .list [key, value] => do
    return .map (Entries.insert (← lift (mapKey m key)) value entries)
  | .map other => return .map (Entries.union other entries)
  | other => mismatch m "a [key, value] pair or an Object" other

/-- What maps do. -/
def map : Method → Implementation C S
  | .render => fun args => do
    let entries ← mapSubject .render args
    if entries.isEmpty then return .text "\x7b\x7d"
    else
      let parts ← entries.mapM fun (k, v) => do return k ++ ": " ++ (← Generic.render v)
      return .text ("\x7b " ++ ", ".intercalate parts ++ " \x7d")
  | .clone => fun args => do
    let entries ← mapSubject .clone args
    return .map (← entries.mapM fun (k, v) => do return (k, ← Generic.clone v))
  | .shallowClone => identity
  | .count => fun args => do return countValue (← mapSubject .count args).length
  | .keys => fun args => do return .list ((← mapSubject .keys args).map fun (k, _) => .text k)
  | .get => fun args => do
    let entries ← mapSubject .get args
    match mapKey .get (argument args 0) with
    | .ok key => return Maybe.of ((Entries.find? key entries).getD .nil)
    | .error _ => return Maybe.none
  | .assoc => fun args => do
    let entries ← mapSubject .assoc args
    let key ← lift (mapKey .assoc (argument args 0))
    return .map (Entries.insert key (argument args 1) entries)
  | .dissoc => fun args => do
    let entries ← mapSubject .dissoc args
    let key ← lift (mapKey .dissoc (argument args 0))
    return .map (Entries.erase key entries)
  | .first => fun args => do
    return Maybe.of (((← mapSubject .first args).head?.map (·.2)).getD .nil)
  | .rest => fun args => do return .map ((← mapSubject .rest args).drop 1)
  | .conj => fun args => do merge .conj (← mapSubject .conj args) (argument args 0)
  | .empty => fun _ => return .map []
  | .append => fun args => do merge .append (← mapSubject .append args) (argument args 0)
  | .foldl => fun args => do
    let f ← functionAt .foldl args 0
    fold f (argument args 1) ((← mapSubject .foldl args).map (·.2))
  | .foldr => fun args => do
    let f ← functionAt .foldr args 0
    fold f (argument args 1) ((← mapSubject .foldr args).map (·.2)).reverse
  | .map => fun args => do
    let f ← functionAt .map args 0
    let entries ← mapSubject .map args
    return .map (← entries.mapM fun (k, v) => do return (k, ← call f [v]))
  | m => unprovided m

end DynamicDispatch.Methods
