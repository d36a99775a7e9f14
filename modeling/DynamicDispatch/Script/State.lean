import DynamicDispatch.Extension
import DynamicDispatch.Multimethod
import DynamicDispatch.Script.Syntax

/-!
# The state of a script

What a script names lasts from one expression to the next: variables, counters, declared types,
protocols, multimethods and registries of its own. The log is emptied between expressions.
-/

namespace DynamicDispatch.Script

/-- A value of a script. -/
abbrev Datum := Value Expr

/-- A declared type. -/
inductive DeclaredType where
  | record (type : RecordType Datum)
  | union (type : UnionType Datum)

/-- The state of a script. -/
structure State where
  bindings : Table String Datum
  counters : Table String Nat
  /-- The values logged, the latest first. -/
  logged : List Datum
  types : Table String DeclaredType
  protocols : Table String Protocol
  multimethods : Table String (Multimethod Expr)
  registries : Table String (Registry Expr)

/-- An action of a script. -/
abbrev Eval (α : Type) := Action Expr State α

/-- The types that a script can name from the start. -/
def standardTypes : Table String DeclaredType :=
  ⟨[("Maybe", .union .maybe), ("Result", .union .result), ("Sum", .record .sum),
    ("Product", .record .product)]⟩

/-- The state in which a script starts. -/
def State.initial : State where
  bindings := .empty
  counters := .empty
  logged := []
  types := standardTypes
  protocols := ⟨Protocol.standard.map fun p => (p.name, p)⟩
  multimethods := .empty
  registries := .empty

namespace Eval

/-- Refuses an expression that is not well formed. -/
def malformed {α : Type} (operation : String) (what : String) : Eval α :=
  .fail (.invalidArgument operation what)

/-- Changes the state. -/
def modify (change : State → State) : Eval Unit :=
  Action.modify fun w => { w with host := change w.host }

/-- The state. -/
def state : Eval State := do return (← Action.world).host

/-- The thing of a name, if the script has one. -/
def named {α : Type} (what name : String) (table : State → Table String α) : Eval α := do
  match (table (← state)).get? name with
  | some a => return a
  | none => malformed name s!"no such {what}"

/-- A declared type. -/
def declaredType (label : String) : Eval DeclaredType := named "type" label (·.types)

/-- A declared record type. -/
def recordType (label : String) : Eval (RecordType Datum) := do
  match ← declaredType label with
  | .record type => return type
  | .union _ => malformed label "not a record type"

/-- A declared union type. -/
def unionType (label : String) : Eval (UnionType Datum) := do
  match ← declaredType label with
  | .union type => return type
  | .record _ => malformed label "not a union type"

/-- A protocol. -/
def protocol (label : String) : Eval Protocol := named "protocol" label (·.protocols)

/-- A multimethod. -/
def multimethod (name : String) : Eval (Multimethod Expr) := named "multimethod" name (·.multimethods)

/-- A registry of the script's own. -/
def registry (name : String) : Eval (Registry Expr) := named "registry" name (·.registries)

/-- Names a type. -/
def nameType (label : String) (type : DeclaredType) : Eval Unit :=
  modify fun s => { s with types := s.types.insert label type }

/-- Names a registry of the script's own. -/
def nameRegistry (name : String) (r : Registry Expr) : Eval Unit :=
  modify fun s => { s with registries := s.registries.insert name r }

/-- Logs a value. -/
def log (v : Datum) : Eval Unit := modify fun s => { s with logged := v :: s.logged }

/-- The keys of the primitive types by name. -/
def primitiveKeys : List (String × TypeKey) :=
  [("Nil", .nil), ("Bool", .bool), ("Number", .number), ("String", .text), ("Array", .list),
    ("Object", .map), ("Function", .function), ("Task", .task), ("Placeholder", .placeholder),
    ("Iterator", .iterator)]

/-- The type key of a name. -/
def typeKey : KeyName → Eval TypeKey
  | .primitive name =>
    match primitiveKeys.lookup name with
    | some key => return key
    | none => malformed name "no such type key"
  | .declared label => do
    match ← declaredType label with
    | .record type => return type.key
    | .union type => return type.key

/-- The descriptors of the primitive types by name. -/
def primitiveDescriptors : List (String × Descriptor Datum) :=
  [("Any", .any), ("Nil", .nil), ("Bool", .bool), ("Number", .number), ("String", .text),
    ("Array", .list), ("Object", .map), ("Function", .function), ("Task", .task),
    ("Union", .anyUnion)]

/-- The descriptor of a primitive type. -/
def primitiveDescriptor (name : String) : Eval (Descriptor Datum) :=
  match primitiveDescriptors.lookup name with
  | some t => return t
  | none => malformed name "no such descriptor"

end Eval

end DynamicDispatch.Script
