import DynamicDispatch.Table
import DynamicDispatch.Value.TypeKey

/-!
# The registry of implementations

Which function implements a method for a type. A later registration of the same method for the same
type replaces an earlier one. An iterable subject whose own type has no implementation falls back to
the one registered for everything iterable.
-/

namespace DynamicDispatch

/-- The implementations of methods by type key and method name. -/
structure Registry (C : Type) where
  table : Table (TypeKey × String) (Func C)

namespace Registry

variable {C : Type}

/-- The registry without implementations. -/
def empty : Registry C := ⟨.empty⟩

/-- The implementation registered for a type. -/
def lookup (r : Registry C) (key : TypeKey) (method : String) : Option (Func C) :=
  r.table.get? (key, method)

/-- The registry with a function registered as it is. -/
def register (r : Registry C) (key : TypeKey) (method : String) (f : Func C) : Registry C :=
  ⟨r.table.insert (key, method) f⟩

/-- The implementation for a subject: its own type's, or else, for an iterable subject, the one for
everything iterable. -/
def resolve (r : Registry C) (subject : Value C) (method : String) : Option (Func C) :=
  match r.lookup subject.typeKey method with
  | some f => some f
  | none => if subject.isIterable then r.lookup .iterator method else none

/-- Whether anything is registered for a type. -/
def knows (r : Registry C) (key : TypeKey) : Bool := r.table.entries.any fun e => e.1.1 = key

/-- Whether something is registered for a type, and every method of a protocol is. -/
def implements (r : Registry C) (p : Protocol) (key : TypeKey) : Bool :=
  r.knows key && p.methods.all fun m => (r.lookup key m.name).isSome

theorem lookup_register (r : Registry C) (key other : TypeKey) (method name : String) (f : Func C) :
    (r.register key method f).lookup other name =
      if key = other ∧ method = name then some f else r.lookup other name := by
  simp [lookup, register, Table.get?_insert]

end Registry

end DynamicDispatch
