import DynamicDispatch.Interpreter
import DynamicDispatch.Script.Operation.Collections
import DynamicDispatch.Script.Operation.Protocols
import DynamicDispatch.Script.Operation.Tasks
import DynamicDispatch.Script.Operation.Types

/-!
# Evaluating expressions

Operands are evaluated from left to right, and the first error ends the evaluation. A function of a
script is its body, evaluated with the arguments of the call.
-/

namespace DynamicDispatch.Script

open Eval

/-- All operations by name. -/
def operations : List (String × Operation) :=
  open Operation in
  numbers ++ texts ++ values ++ types ++ instances ++ standard ++ protocols ++ registries
    ++ multimethods ++ functions ++ methods ++ collections ++ tasks ++ runs

/-- What an operation does. -/
def operation (name : String) : Operation :=
  match operations.lookup name with
  | some f => f
  | none => fun _ => malformed name "no such operation"

/-- What an operation on a type key does. -/
def keyOperation (name : String) (key : TypeKey) : Operation :=
  match Operation.registryKeys.lookup name with
  | some f => f key
  | none => fun _ => malformed name "no such operation"

/-- The next value of a counter. -/
def countUp (name : String) : Eval Datum := do
  let n := ((← state).counters.get? name).getD 0 + 1
  modify fun s => { s with counters := s.counters.insert name n }
  return countDatum n

/-- The value of a function applied `n` times. -/
def iterate (f : Datum) : Nat → Datum → Eval Datum
  | 0, v => return v
  | n + 1, v => do iterate f n (← Operation.callValue [v] f)

mutual

/-- The value of an expression, given the arguments of the running function. -/
def Expr.eval (args : List Datum) : Expr → Eval Datum
  | .nil => return .nil
  | .bool b => return .bool b
  | .number x => return .number x
  | .text s => return .text s
  | .hole => return .placeholder
  | .list items => do return .list (← evalAll args items)
  | .map entries => do return .map (Entries.ofList (← evalEntries args entries))
  | .assign name value => do
    let v ← value.eval args
    modify fun s => { s with bindings := s.bindings.insert name v }
    return v
  | .var name => named "variable" name (·.bindings)
  | .function name arity body => do
    return .func (← Action.minting (newFunc name arity (.host body)))
  | .arg i => return argument args i
  | .args => return .list args
  | .ite condition yes no => do
    if (← condition.eval args).truthy then yes.eval args else no.eval args
  | .block items => do return lastArgument (← evalAll args items)
  | .log value => do
    let v ← value.eval args
    Eval.log v
    return v
  | .tick name => countUp name
  | .fault detail => .fail (.invalidArgument "raise" detail)
  | .iterate n f value => do
    let f ← f.eval args
    iterate f n (← value.eval args)
  | .apply name operands => do operation name (← evalAll args operands)
  | .applyKey name key operands => do keyOperation name (← typeKey key) (← evalAll args operands)
  | .conforms type value => do
    let t ← type.descriptor args
    return .bool (t.accepts (← value.eval args))
  | .showType type => do return .text (← (← type.descriptor args).render)
  | .defineRecord label name fields => do
    let type ← declareRecord name (← describeEntries args fields)
    nameType label (.record type)
    return .nil
  | .defineUnion label name cases => do
    let type ← declareUnion name (← describeCases args cases)
    nameType label (.union type)
    return .nil
  | .extendType key groups => do
    let key ← typeKey key
    DynamicDispatch.extendType key (← evalGroups args groups)
    return .nil
  | .extendProtocol label groups => do
    let p ← protocol label
    DynamicDispatch.extendProtocol p (← evalKeyGroups args groups)
    return .nil

/-- The values of expressions from left to right. -/
def evalAll (args : List Datum) : List Expr → Eval (List Datum)
  | [] => return []
  | e :: es => do return (← e.eval args) :: (← evalAll args es)

/-- The values of entries from left to right. -/
def evalEntries (args : List Datum) : List (String × Expr) → Eval (List (String × Datum))
  | [] => return []
  | (k, e) :: rest => do return (k, ← e.eval args) :: (← evalEntries args rest)

/-- The functions for protocols by name. -/
def evalGroups (args : List Datum) :
    List (String × List Expr) → Eval (List (Protocol × List (Func Expr)))
  | [] => return []
  | (label, es) :: rest => do
    let p ← protocol label
    let functions ← (← evalAll args es).mapM (Argument.func "extend_type")
    return (p, functions) :: (← evalGroups args rest)

/-- The functions for types by key. -/
def evalKeyGroups (args : List Datum) :
    List (KeyName × List Expr) → Eval (List (TypeKey × List (Func Expr)))
  | [] => return []
  | (name, es) :: rest => do
    let key ← typeKey name
    let functions ← (← evalAll args es).mapM (Argument.func "extend_protocol")
    return (key, functions) :: (← evalKeyGroups args rest)

/-- The descriptor that an expression stands for. -/
def TypeExpr.descriptor (args : List Datum) : TypeExpr → Eval (Descriptor Datum)
  | .primitive name => primitiveDescriptor name
  | .literal value => do return .literal (← value.eval args)
  | .oneOf members => do return .oneOf (← describeAll args members)
  | .listOf element => do return .listOf (← element.descriptor args)
  | .shape entries => do return .shape (← describeEntries args entries)
  | .maybeOf type => do return UnionType.maybe.of [← type.descriptor args]
  | .declared label => do
    match ← declaredType label with
    | .record type => return type.descriptor
    | .union type => return type.descriptor
  | .case label case => do return (← unionType label).caseDescriptor case
  | .of label fields => do return (← unionType label).of (← describeAll args fields)
  | .pattern name case none => return .union name case none
  | .pattern name case (some fields) => do
    return .union name case (some (← describeAll args fields))

/-- The descriptors of several expressions. -/
def describeAll (args : List Datum) : List TypeExpr → Eval (List (Descriptor Datum))
  | [] => return []
  | t :: ts => do return (← t.descriptor args) :: (← describeAll args ts)

/-- The descriptors of named fields. -/
def describeEntries (args : List Datum) :
    List (String × TypeExpr) → Eval (List (String × Descriptor Datum))
  | [] => return []
  | (k, t) :: rest => do return (k, ← t.descriptor args) :: (← describeEntries args rest)

/-- The descriptors of the fields of several cases. -/
def describeCases (args : List Datum) :
    List (String × List TypeExpr) → Eval (List (String × List (Descriptor Datum)))
  | [] => return []
  | (k, ts) :: rest => do return (k, ← describeAll args ts) :: (← describeCases args rest)

end

instance : Embedding Expr State where
  body e args := e.eval args

end DynamicDispatch.Script
