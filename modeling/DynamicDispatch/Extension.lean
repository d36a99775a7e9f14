import DynamicDispatch.Currying
import DynamicDispatch.Dispatch
import DynamicDispatch.Standard

/-!
# Extending types

Implementations come into the registry in three ways: a family's methods when a type of the family
comes into being, an extension of one type, and an extension of one protocol. An extension whose
functions are not all declared by their protocols changes nothing.
-/

namespace DynamicDispatch

variable {C S : Type}

namespace Registry

/-- The registry with functions registered for a type under their own names, each collecting as many
arguments as it declares. -/
def extend (key : TypeKey) (functions : List (Func C)) (r : Registry C) : StateM Nat (Registry C) :=
  functions.foldlM (fun r f => return r.register key f.name (← curry f)) r

/-- The registry with functions registered for a type under their own names, as they are. -/
def extendRaw (key : TypeKey) (functions : List (Func C)) (r : Registry C) : Registry C :=
  functions.foldl (fun r f => r.register key f.name f) r

/-- The registry with the methods of a family registered for a type. -/
def install (key : TypeKey) (family : Family) (r : Registry C) : StateM Nat (Registry C) := do
  let functions ← family.methods.mapM fun m => newFunc m.name m.arity (.builtin family m)
  r.extend key functions

/-- The parts of which the standard registry is made: families by name, with their types. -/
def parts : List (String × List (TypeKey × Family)) :=
  [("nil", [(.nil, .nil)]), ("bool", [(.bool, .bool)]), ("number", [(.number, .number)]),
    ("function", [(.function, .function), (.placeholder, .placeholder)]), ("list", [(.list, .list)]),
    ("string", [(.text, .text)]), ("map", [(.map, .map)]), ("task", [(.task, .task)])]

/-- The registry with the families of a part registered. -/
def installPart (part : List (TypeKey × Family)) (r : Registry C) : StateM Nat (Registry C) :=
  part.foldlM (fun r (key, family) => r.install key family) r

/-- A registry with the primitive types' methods. -/
def primitive : StateM Nat (Registry C) :=
  parts.foldlM (fun r (_, part) => r.installPart part) empty

/-- The families of a declared record type. -/
def recordPart (type : RecordType (Value C)) : List (TypeKey × Family) := [(type.key, .record)]

/-- The families of a declared union type. -/
def unionPart (type : UnionType (Value C)) : List (TypeKey × Family) := [(type.key, .union)]

/-- The families of the standard types. -/
def standardTypes (C : Type) : List (TypeKey × Family) :=
  [((UnionType.maybe (C := C)).key, .union), ((UnionType.maybe (C := C)).key, .maybe),
    ((UnionType.result (C := C)).key, .union), ((UnionType.result (C := C)).key, .result),
    ((RecordType.sum (C := C)).key, .record), ((RecordType.sum (C := C)).key, .sum),
    ((RecordType.product (C := C)).key, .record), ((RecordType.product (C := C)).key, .product)]

/-- The registry with which everything starts. -/
def standard : StateM Nat (Registry C) := do (← primitive).installPart (standardTypes C)

end Registry

/-- The world in which everything starts. -/
def World.initial (host : S) : World C S :=
  let (registry, nextId) := (Registry.standard (C := C)).run firstFreeId
  ⟨registry, .empty, .empty, .empty, [], nextId, host⟩

/-- Changes the shared registry. -/
def Action.register (change : Registry C → StateM Nat (Registry C)) : Action C S Unit :=
  .read fun w =>
    let (registry, nextId) := (change w.registry).run w.nextId
    .write { w with registry, nextId } (.ok ())

/-- Declares a record type and registers its methods. -/
def declareRecord (name : String) (fields : List (String × Descriptor (Value C))) :
    Action C S (RecordType (Value C)) := do
  let type : RecordType (Value C) := ⟨← Action.minting newId, name, fields⟩
  Action.register (·.installPart (Registry.recordPart type))
  return type

/-- Declares a union type and registers its methods. -/
def declareUnion (name : String) (cases : List (String × List (Descriptor (Value C)))) :
    Action C S (UnionType (Value C)) := do
  let type : UnionType (Value C) := ⟨← Action.minting newId, name, cases⟩
  Action.register (·.installPart (Registry.unionPart type))
  return type

namespace Protocol

/-- The first function that a protocol does not declare. -/
def undeclared? (p : Protocol) (functions : List (Func C)) : Option (Func C) :=
  functions.find? fun f => !p.declares f.name

/-- Refuses functions that a protocol does not declare. -/
def checkDeclared : List (Protocol × List (Func C)) → Except Error Unit
  | [] => .ok ()
  | (p, functions) :: rest =>
    match p.undeclared? functions with
    | some f => .error (.invalidArgument "extend"
        s!"protocol '{p.name}' declares no method '{f.name}'")
    | none => checkDeclared rest

end Protocol

/-- Extends one type by functions for several protocols, each collecting its arguments. -/
def extendType (key : TypeKey) (groups : List (Protocol × List (Func C))) : Action C S Unit := do
  .done (Protocol.checkDeclared groups)
  Action.register fun r => groups.foldlM (fun r (_, functions) => r.extend key functions) r

/-- Extends one protocol to several types by functions as they are. -/
def extendProtocol (p : Protocol) (groups : List (TypeKey × List (Func C))) : Action C S Unit := do
  .done (Protocol.checkDeclared (groups.map fun (_, functions) => (p, functions)))
  Action.register fun r =>
    return groups.foldl (fun r (key, functions) => r.extendRaw key functions) r

/-- Whether every method of a protocol is registered for a value's own type. -/
def implementsProtocol (p : Protocol) (v : Value C) : Action C S Bool := do
  return (← Action.world).registry.implements p v.typeKey

/-- The dispatcher of a declared method, as a function that collects the method's arguments. -/
def Protocol.dispatcher (p : Protocol) (method : String) : StateM Nat (Option (Func C)) :=
  match p.method? method with
  | none => return none
  | some s => do return some (← curryN s.arity (← newFunc method s.arity (.dispatcher p method)))

end DynamicDispatch
