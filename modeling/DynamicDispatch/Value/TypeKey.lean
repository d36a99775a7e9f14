import DynamicDispatch.Value.Basic

/-!
# Type keys

Implementations are registered under the nominal type of their subject: one key for each primitive,
one for every declared type by its identity, and one that stands for everything iterable.
-/

namespace DynamicDispatch

/-- What implementations are registered under. -/
inductive TypeKey where
  | nil | bool | number | text | list | map | function | task | placeholder
  /-- Stands in for iterable subjects without an implementation of their own. -/
  | iterator
  | record (id : Nat)
  | union (id : Nat)
  deriving DecidableEq, Repr

/-- The key of a record type. -/
def RecordType.key {V : Type} (type : RecordType V) : TypeKey := .record type.id

/-- The key of a union type. -/
def UnionType.key {V : Type} (type : UnionType V) : TypeKey := .union type.id

/-- The key of a value's type. -/
def Value.typeKey {C : Type} : Value C → TypeKey
  | .nil => .nil
  | .bool _ => .bool
  | .number _ => .number
  | .text _ => .text
  | .list _ => .list
  | .map _ => .map
  | .func _ => .function
  | .record type _ => type.key
  | .union type _ _ => type.key
  | .task _ => .task
  | .placeholder => .placeholder

/-- Whether a value is an instance of a union type, in any case. -/
def UnionType.contains {C : Type} (type : UnionType (Value C)) : Value C → Bool
  | .union t _ _ => t.id == type.id
  | _ => false

/-- The three kinds of values that type queries tell apart. -/
inductive Kind where
  | plain | record | union
  deriving DecidableEq, Repr

/-- The kind of a value. -/
def Value.kind {C : Type} : Value C → Kind
  | .record _ _ => .record
  | .union _ _ _ => .union
  | _ => .plain

end DynamicDispatch
