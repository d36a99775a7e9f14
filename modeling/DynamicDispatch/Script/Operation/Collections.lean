import DynamicDispatch.Collection.Comparison
import DynamicDispatch.Collection.Reshape
import DynamicDispatch.Script.Operation.Basic

/-!
# Operations on functions and collections

The entry points of the standard methods, the collection utilities, and what is done with functions.
-/

namespace DynamicDispatch.Script.Operation

open Argument

/-- An operation on one value. -/
def unary (name : String) (f : Datum → Eval Datum) : String × Operation :=
  (name, fun args => f (argument args 0))

/-- An operation on two values. -/
def binary (name : String) (f : Datum → Datum → Eval Datum) : String × Operation :=
  (name, fun args => f (argument args 0) (argument args 1))

/-- An operation on three values. -/
def ternary (name : String) (f : Datum → Datum → Datum → Eval Datum) : String × Operation :=
  (name, fun args => f (argument args 0) (argument args 1) (argument args 2))

/-- An operation on a function and a value. -/
def withFunc (name : String) (f : Func Expr → Datum → Eval Datum) : String × Operation :=
  (name, fun args => do f (← func name (argument args 0)) (argument args 1))

/-- An operation on a function and two values. -/
def withFunc2 (name : String) (f : Func Expr → Datum → Datum → Eval Datum) : String × Operation :=
  (name, fun args => do f (← func name (argument args 0)) (argument args 1) (argument args 2))

/-- An operation on two functions and a value. -/
def withFuncs (name : String) (f : Func Expr → Func Expr → Datum → Eval Datum) :
    String × Operation :=
  (name, fun args => do
    f (← func name (argument args 0)) (← func name (argument args 1)) (argument args 2))

/-- Calls a value. -/
def callValue (args : List Datum) : Datum → Eval Datum
  | .func f => call f args
  | other => .fail (.invalidArgument "call" s!"{other.typeName} is not callable")

/-- Operations on functions. -/
def functions : List (String × Operation) :=
  [("call", fun args => do callValue (← list "call" (argument args 1)) (argument args 0)),
    ("curry", fun args => do
      return .func (← Action.minting (curry (← func "curry" (argument args 0))))),
    ("curry_n", fun args => do
      let n ← count "curry_n" (argument args 0)
      return .func (← Action.minting (curryN n (← func "curry_n" (argument args 1))))),
    ("pipe", fun args => do
      return .func (← Action.minting (Collection.pipe (← funcs "pipe" (argument args 0))))),
    ("comp", fun args => do
      return .func (← Action.minting (Collection.comp (← funcs "comp" (argument args 0))))),
    withFunc2 "lift_a2" Collection.liftA2]

/-- The entry points of the standard methods. -/
def methods : List (String × Operation) :=
  [unary "show" fun x => do return .text (← Generic.render x),
    unary "clone" Generic.clone,
    unary "shallow_clone" Generic.shallowClone,
    unary "count" fun xs => do return countDatum (← Generic.count xs),
    unary "first" Generic.first,
    unary "rest" Generic.rest,
    binary "conj" Generic.conj,
    unary "iterator" fun xs => do return .list (← Generic.iterator xs),
    unary "keys" Generic.keys,
    ternary "assoc" Generic.assoc,
    binary "dissoc" Generic.dissoc,
    binary "get" Generic.get,
    unary "empty" Generic.empty,
    binary "append" Generic.append,
    withFunc2 "foldl" Generic.foldl,
    withFunc2 "foldr" Generic.foldr,
    withFunc "fmap" Generic.map,
    withFuncs "cata" Generic.cata,
    withFuncs "bimap" Generic.bimap,
    binary "ap" Generic.ap,
    binary "of" Generic.of,
    unary "flatten" Generic.flatten]

/-- The collection utilities. -/
def collections : List (String × Operation) :=
  [ternary "get_or_else" Collection.getOrElse,
    binary "get_in" fun path xs => do Collection.getIn (← list "get_in" path) xs,
    ternary "get_in_or_else" fun path fallback xs => do
      Collection.getInOrElse (← list "get_in_or_else" path) fallback xs,
    ternary "assoc_in" fun path value xs => do
      Collection.assocIn (← list "assoc_in" path) value xs,
    binary "dissoc_in" fun path xs => do Collection.dissocIn (← list "dissoc_in" path) xs,
    binary "evolve" Collection.evolve,
    withFunc2 "foldl_kv" Collection.foldlKv,
    withFunc2 "foldr_kv" Collection.foldrKv,
    withFunc "any" fun f xs => do return .bool (← Collection.any f xs),
    withFunc "every" fun f xs => do return .bool (← Collection.every f xs),
    withFunc "filter" Collection.filter,
    withFunc "filter_kv" Collection.filterKv,
    withFunc "remove" Collection.remove,
    withFunc "remove_kv" Collection.removeKv,
    binary "take" fun n xs => do Collection.take (← count "take" n) xs,
    binary "into" Collection.into,
    unary "vals" Collection.vals,
    unary "kvp" Collection.kvp,
    unary "zip" fun xss => do Collection.zip (← list "zip" xss),
    withFunc "and_then" Collection.andThen,
    binary "equal" fun a b => return .bool (Value.equal a b),
    binary "shallow_equal" fun a b => do return .bool (← Collection.shallowEqual a b),
    binary "deep_equal" fun a b => do return .bool (← Collection.deepEqual a b)]

end DynamicDispatch.Script.Operation
