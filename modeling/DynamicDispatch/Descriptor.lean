/-!
# Descriptors and declared types

A descriptor stands for a type when a value is checked: a primitive, a literal, a record by its name,
a pattern of unions, or a structure over other descriptors. Record and union types are declared with
descriptors for their fields and have an identity of their own, so that two types of one name stay
apart. Everything here is parametric in the values that literals hold.
-/

namespace DynamicDispatch

/-- A type as values are checked against it. -/
inductive Descriptor (V : Type) where
  /-- Every value. -/
  | any
  | nil
  | bool
  | number
  | text
  /-- Any list. -/
  | list
  /-- Any plain map. -/
  | map
  | function
  | task
  /-- The values equal to the one given. -/
  | literal (value : V)
  /-- The values that some member accepts; with no member, none. -/
  | oneOf (members : List (Descriptor V))
  /-- The records of every type with this name. -/
  | record (name : String)
  /-- The union instances whose type has the name, whose case has the name, and whose fields match;
  an absent part admits anything. -/
  | union (name : Option String) (case : Option String) (fields : Option (List (Descriptor V)))
  /-- The lists all of whose elements match. -/
  | listOf (element : Descriptor V)
  /-- The maps in which every listed key is present and holds a matching value. -/
  | shape (entries : List (String × Descriptor V))

namespace Descriptor

variable {V : Type}

/-- The instances of any union type. -/
def anyUnion : Descriptor V := .union none none none

end Descriptor

/-- A declared record type. -/
structure RecordType (V : Type) where
  /-- What makes the type different from every other declared type. -/
  id : Nat
  name : String
  fields : List (String × Descriptor V)

namespace RecordType

variable {V : Type}

/-- The names of the fields in order. -/
def fieldNames (type : RecordType V) : List String := type.fields.map (·.1)

/-- The descriptor of the type's records. -/
def descriptor (type : RecordType V) : Descriptor V := .record type.name

end RecordType

/-- A declared union type. -/
structure UnionType (V : Type) where
  /-- What makes the type different from every other declared type. -/
  id : Nat
  name : String
  cases : List (String × List (Descriptor V))

namespace UnionType

variable {V : Type}

/-- The names of the cases in order. -/
def caseNames (type : UnionType V) : List String := type.cases.map (·.1)

/-- The fields of the first case of a name. -/
def caseFields? (type : UnionType V) (case : String) : Option (List (Descriptor V)) :=
  (type.cases.find? (·.1 == case)).map (·.2)

/-- Whether the type declares a case of a name. -/
def hasCase (type : UnionType V) (case : String) : Bool := (type.caseFields? case).isSome

/-- The position of the first case of a name. -/
def caseIndex? (type : UnionType V) (case : String) : Option Nat :=
  type.cases.findIdx? (·.1 == case)

/-- The descriptor of all instances of types with this type's name. -/
def descriptor (type : UnionType V) : Descriptor V := .union (some type.name) none none

/-- The descriptor of the instances of one case. -/
def caseDescriptor (type : UnionType V) (case : String) : Descriptor V :=
  .union (some type.name) (some case) none

/-- The descriptor of the instances whose fields match by position. -/
def of (type : UnionType V) (fields : List (Descriptor V)) : Descriptor V :=
  .union (some type.name) none (some fields)

end UnionType

end DynamicDispatch
