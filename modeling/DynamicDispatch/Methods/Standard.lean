import DynamicDispatch.Methods.Argument

/-!
# Methods of the standard types

`Maybe` and `Result` act on the value of the case that holds one and leave the other case alone;
`Sum` and `Product` are joined by their operation.
-/

namespace DynamicDispatch.Methods

variable {C S : Type}

/-- A value that must be an instance of a type: the name of its case and its fields. -/
def instanceOf (type : UnionType (Value C)) (m : Method) : Value C →
    Action C S (String × List (Value C))
  | .union t index fields =>
    if t.id == type.id then return (t.caseName index, fields)
    else .fail (.typeMismatch m.name s!"a {type.name}" t.name)
  | other => .fail (.typeMismatch m.name s!"a {type.name}" other.typeName)

/-- Both folds of a type whose `present` case holds one value; any other case folds to the initial
value. -/
def foldPresent (type : UnionType (Value C)) (present : String) (m : Method) : Implementation C S :=
  fun args => do
    let f ← functionAt m args 0
    let (case, fields) ← instanceOf type m (lastArgument args)
    if case == present then call f [argument fields 0, argument args 1]
    else return argument args 1

/-- Applies the function or functions held by the subject's `present` case to a container. -/
def applyPresent (type : UnionType (Value C)) (present : String) : Implementation C S :=
  fun args => do
    let functions := lastArgument args
    let (case, fields) ← instanceOf type .ap functions
    if case == present then Generic.map (← functionAt .ap fields 0) (argument args 0)
    else return functions

/-- What `Maybe` does. -/
def maybe : Method → Implementation C S
  | .clone => fun args => do
    let (case, fields) ← instanceOf .maybe .clone (lastArgument args)
    if case == "Some" then return Maybe.some (← Generic.clone (argument fields 0))
    else return lastArgument args
  | .shallowClone => firstArgument
  | .empty => fun _ => return Maybe.none
  | .append => fun args => do
    let (case, fields) ← instanceOf .maybe .append (lastArgument args)
    let (addedCase, added) ← instanceOf .maybe .append (argument args 0)
    match addedCase == "Some", case == "Some" with
    | true, true => return Maybe.some (← Generic.append (argument added 0) (argument fields 0))
    | true, false => return argument args 0
    | false, _ => return lastArgument args
  | .foldl => foldPresent .maybe "Some" .foldl
  | .foldr => foldPresent .maybe "Some" .foldr
  | .map => fun args => do
    let f ← functionAt .map args 0
    let (case, fields) ← instanceOf .maybe .map (lastArgument args)
    if case == "Some" then return Maybe.of (← call f [argument fields 0])
    else return lastArgument args
  | .cata => fun args => do
    let f ← functionAt .cata args 0
    let g ← functionAt .cata args 1
    let (case, fields) ← instanceOf .maybe .cata (lastArgument args)
    if case == "Some" then call f fields else call g []
  | .bimap => fun args => do
    let f ← functionAt .bimap args 0
    let (case, fields) ← instanceOf .maybe .bimap (lastArgument args)
    if case == "Some" then return Maybe.some (← call f [argument fields 0])
    else return lastArgument args
  | .of => fun args => return Maybe.some (argument args 0)
  | .flatten => fun args => do
    let (case, fields) ← instanceOf .maybe .flatten (lastArgument args)
    if case == "Some" then return Maybe.of (argument fields 0) else return lastArgument args
  | .ap => applyPresent .maybe "Some"
  | m => unprovided m

/-- What `Result` does. -/
def result : Method → Implementation C S
  | .clone => fun args => do
    let (case, fields) ← instanceOf .result .clone (lastArgument args)
    return UnionType.result.make case [← Generic.clone (argument fields 0)]
  | .shallowClone => firstArgument
  | .empty => fun args => do
    let (case, fields) ← instanceOf .result .empty (lastArgument args)
    return UnionType.result.make case [← Generic.empty (argument fields 0)]
  | .append => fun args => do
    let (case, fields) ← instanceOf .result .append (lastArgument args)
    let (addedCase, added) ← instanceOf .result .append (argument args 0)
    match addedCase == "Ok", case == "Ok" with
    | true, true => return Result.ok (← Generic.append (argument added 0) (argument fields 0))
    | false, false => return Result.err (← Generic.append (argument added 0) (argument fields 0))
    | false, true => return argument args 0
    | true, false => return lastArgument args
  | .foldl => foldPresent .result "Ok" .foldl
  | .foldr => foldPresent .result "Ok" .foldr
  | .map => fun args => do
    let f ← functionAt .map args 0
    let (case, fields) ← instanceOf .result .map (lastArgument args)
    if case == "Ok" then return Result.ok (← call f [argument fields 0])
    else return lastArgument args
  | .cata => fun args => do
    let f ← functionAt .cata args 0
    let g ← functionAt .cata args 1
    let (case, fields) ← instanceOf .result .cata (lastArgument args)
    if case == "Ok" then call f fields else call g fields
  | .bimap => fun args => do
    let f ← functionAt .bimap args 0
    let g ← functionAt .bimap args 1
    let (case, fields) ← instanceOf .result .bimap (lastArgument args)
    if case == "Ok" then return Result.ok (← call f [argument fields 0])
    else return Result.err (← call g [argument fields 0])
  | .of => fun args => return Result.ok (argument args 0)
  | .flatten => fun args => do
    let (case, fields) ← instanceOf .result .flatten (lastArgument args)
    if case == "Ok" && UnionType.result.contains (argument fields 0) then return argument fields 0
    else return lastArgument args
  | .ap => applyPresent .result "Ok"
  | m => unprovided m

/-- The number held by a record of a type. -/
def numberIn (type : RecordType (Value C)) : Value C → Action C S Float
  | .record t fields =>
    if t.id == type.id then
      match fields with
      | .number x :: _ => return x
      | _ => return 0
    else .fail (.typeMismatch "append" s!"a {type.name}" t.name)
  | other => .fail (.typeMismatch "append" s!"a {type.name}" other.typeName)

/-- What a type of numbers joined by an operation does. -/
def monoid (type : RecordType (Value C)) (identity : Float) (join : Float → Float → Float) :
    Method → Implementation C S
  | .empty => fun _ => return .record type [.number identity]
  | .append => fun args => do
    let x ← numberIn type (argument args 0)
    let xs ← numberIn type (argument args 1)
    return .record type [.number (join xs x)]
  | m => unprovided m

end DynamicDispatch.Methods
