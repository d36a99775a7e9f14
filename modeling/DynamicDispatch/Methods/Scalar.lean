import DynamicDispatch.Methods.Argument

/-!
# Methods of values without parts

Nil, truth values, numbers, functions and the hole are rendered, and each but the hole is a copy of
itself.
-/

namespace DynamicDispatch.Methods

variable {C S : Type}

/-- The methods of a family whose values are rendered without asking a protocol. -/
def scalar (render : Value C → String) : Method → Implementation C S
  | .render => fun args => return .text (render (lastArgument args))
  | .clone | .shallowClone => identity
  | m => unprovided m

/-- The word for a truth value. -/
def renderBool : Value C → String
  | .bool true => "true"
  | _ => "false"

/-- The text of a number. -/
def renderNumber : Value C → String
  | .number x => Number.plain x
  | _ => Number.plain 0

/-- The name of a function. -/
def renderFunction : Value C → String
  | .func f => s!"[Function {f.name}]"
  | _ => "[Function]"

end DynamicDispatch.Methods
