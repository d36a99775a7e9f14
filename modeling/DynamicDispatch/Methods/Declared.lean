import DynamicDispatch.Methods.Argument

/-!
# Methods of declared types

A record is rendered, counted and looked into by its fields' names and is a copy of itself; a union
instance is rendered by its case.
-/

namespace DynamicDispatch.Methods

variable {C S : Type}

/-- The subject when it is a record. -/
def recordSubject (m : Method) (args : List (Value C)) :
    Action C S (RecordType (Value C) × List (Value C)) :=
  match args.getLast? with
  | some (.record type fields) => return (type, fields)
  | other => .fail (.invalidArgument m.name ("expected a record, got " ++ Value.typeName? other))

/-- The value of the first field of a name. -/
def fieldNamed? (type : RecordType (Value C)) (fields : List (Value C)) (name : String) :
    Option (Value C) :=
  (type.fieldNames.findIdx? (· == name)).bind (fields[·]?)

/-- What records do. -/
def record : Method → Implementation C S
  | .render => fun args => do
    let (type, fields) ← recordSubject .render args
    return .text (type.name ++ "(" ++ ", ".intercalate (← Generic.renderAll fields) ++ ")")
  | .clone | .shallowClone => firstArgument
  | .count => fun args => do return countValue (← recordSubject .count args).2.length
  | .get => fun args => do
    let (type, fields) ← recordSubject .get args
    match argument args 0 with
    | .text name => return Maybe.of ((fieldNamed? type fields name).getD .nil)
    | _ => return Maybe.none
  | .first => fun args => do return Maybe.of ((← recordSubject .first args).2.headD .nil)
  | .rest => fun args => do
    return .list (((← recordSubject .rest args).1.fieldNames.drop 1).map .text)
  | .keys => fun args => do return .list ((← recordSubject .keys args).1.fieldNames.map .text)
  | m => unprovided m

/-- What union instances do. -/
def union : Method → Implementation C S
  | .render => fun args => do
    match lastArgument args with
    | .union type index fields =>
      return .text (type.name ++ "." ++ type.caseName index ++ "("
        ++ ", ".intercalate (← Generic.renderAll fields) ++ ")")
    | other => .fail (.typeMismatch "show" "a union type" (← Generic.display other))
  | m => unprovided m

end DynamicDispatch.Methods
