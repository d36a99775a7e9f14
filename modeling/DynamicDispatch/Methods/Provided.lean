import DynamicDispatch.Methods.Declared
import DynamicDispatch.Methods.List
import DynamicDispatch.Methods.Map
import DynamicDispatch.Methods.Scalar
import DynamicDispatch.Methods.Standard
import DynamicDispatch.Methods.Task
import DynamicDispatch.Methods.Text

/-!
# The implementations of every family

What a standard method does, given the family that provides it.
-/

namespace DynamicDispatch

variable {C S : Type}

/-- What a family's method does. -/
def Family.implementation : Family → Method → Implementation C S
  | .nil => Methods.scalar fun _ => "Nil"
  | .bool => Methods.scalar Methods.renderBool
  | .number => Methods.scalar Methods.renderNumber
  | .function => Methods.scalar Methods.renderFunction
  | .placeholder => Methods.scalar fun _ => "__"
  | .list => Methods.list
  | .text => Methods.text
  | .map => Methods.map
  | .task => Methods.task
  | .record => Methods.record
  | .union => Methods.union
  | .maybe => Methods.maybe
  | .result => Methods.result
  | .sum => Methods.monoid .sum 0 (· + ·)
  | .product => Methods.monoid .product 1 (· * ·)

end DynamicDispatch
