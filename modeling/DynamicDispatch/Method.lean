/-!
# The standard methods and who provides them

A method is dispatched on its last argument. The types that exist from the start, and every declared
record and union type, fall into families; a family provides some of the methods.
-/

namespace DynamicDispatch

/-- The standard methods. -/
inductive Method where
  | render | clone | shallowClone | count | first | rest | conj | iterator | keys | assoc | dissoc
  | get | empty | append | foldl | foldr | map | cata | bimap | ap | of | flatten
  deriving DecidableEq, Repr

namespace Method

/-- The name under which implementations of the method are registered. -/
def name : Method → String
  | render => "show" | clone => "clone" | shallowClone => "shallow_clone" | count => "count"
  | first => "first" | rest => "rest" | conj => "conj" | iterator => "iterator" | keys => "keys"
  | assoc => "assoc" | dissoc => "dissoc" | get => "get" | empty => "empty" | append => "append"
  | foldl => "foldl" | foldr => "foldr" | map => "map" | cata => "cata" | bimap => "bimap"
  | ap => "ap" | of => "of" | flatten => "flatten"

/-- The names of the parameters; the last one is the subject. -/
def params : Method → List String
  | render | clone | shallowClone | iterator => ["x"]
  | count | first | rest | keys | empty => ["xs"]
  | conj | append => ["x", "xs"]
  | assoc => ["key", "val", "xs"]
  | dissoc | get => ["key", "xs"]
  | foldl | foldr => ["f", "initial", "xs"]
  | map => ["f", "coll"]
  | cata | bimap => ["f", "g", "coll"]
  | ap => ["ma", "mb"]
  | of => ["x", "m"]
  | flatten => ["m"]

/-- The number of parameters. -/
def arity (m : Method) : Nat := m.params.length

end Method

/-- The families of types with methods of their own. -/
inductive Family where
  | nil | bool | number | function | placeholder | list | text | map | task
  /-- Every declared record type. -/
  | record
  /-- Every declared union type. -/
  | union
  | maybe | result | sum | product
  deriving DecidableEq, Repr

/-- The methods that a family provides. -/
def Family.methods : Family → List Method
  | .nil | .bool | .number | .function => [.render, .clone, .shallowClone]
  | .placeholder | .union => [.render]
  | .list =>
    [.render, .clone, .shallowClone, .count, .get, .first, .rest, .conj, .iterator, .keys, .assoc,
      .dissoc, .empty, .append, .foldl, .foldr, .map, .of, .flatten, .ap]
  | .text =>
    [.render, .clone, .shallowClone, .count, .get, .first, .rest, .conj, .iterator, .keys, .assoc,
      .dissoc, .empty, .append, .foldl, .foldr, .map, .of, .flatten]
  | .map =>
    [.render, .clone, .shallowClone, .count, .keys, .get, .assoc, .dissoc, .first, .rest, .conj,
      .empty, .append, .foldl, .foldr, .map]
  | .task =>
    [.render, .clone, .shallowClone, .foldl, .foldr, .map, .bimap, .of, .flatten, .ap]
  | .record => [.render, .clone, .shallowClone, .count, .get, .first, .rest, .keys]
  | .maybe | .result =>
    [.clone, .shallowClone, .empty, .append, .foldl, .foldr, .map, .cata, .bimap, .of, .flatten, .ap]
  | .sum | .product => [.empty, .append]

end DynamicDispatch
