import DynamicDispatch.Construction

/-!
# The types that exist from the start

`Maybe` holds a value or none, `Result` an accepted or a refused one, and `Sum` and `Product` hold a
number each. Their identities come before those of all declared types.
-/

namespace DynamicDispatch

variable {C S : Type}

namespace UnionType

/-- A value, or none. -/
def maybe : UnionType (Value C) := ⟨0, "Maybe", [("Some", [.any]), ("None", [])]⟩

/-- An accepted value, or a refused one. -/
def result : UnionType (Value C) := ⟨1, "Result", [("Ok", [.any]), ("Err", [.any])]⟩

end UnionType

namespace RecordType

/-- Numbers that are joined by addition. -/
def sum : RecordType (Value C) := ⟨2, "Sum", [("val", .number)]⟩

/-- Numbers that are joined by multiplication. -/
def product : RecordType (Value C) := ⟨3, "Product", [("val", .number)]⟩

end RecordType

/-- The first identity that is free when the standard types exist. -/
def firstFreeId : Nat := 4

namespace Maybe

/-- A value that is there. -/
def some (v : Value C) : Value C := UnionType.maybe.make "Some" [v]

/-- No value. -/
def none : Value C := UnionType.maybe.make "None" []

/-- A possibly absent value: nil is absent, a `Maybe` is itself, anything else is there. -/
def of (v : Value C) : Value C :=
  if UnionType.maybe.contains v then v else if v.isNil then none else some v

/-- The value inside a `Maybe`, or another one for none. -/
def getOr (fallback : Value C) : Value C → Except Error (Value C)
  | .union type index fields =>
    if type.id == (UnionType.maybe (C := C)).id then
      .ok (if type.caseName index == "Some" then argument fields 0 else fallback)
    else .error (.typeMismatch "Maybe::get_or" "a Maybe" type.name)
  | v => .error (.typeMismatch "Maybe::get_or" "a Maybe" v.typeName)

end Maybe

namespace Result

/-- An accepted value. -/
def ok (v : Value C) : Value C := UnionType.result.make "Ok" [v]

/-- A refused value. -/
def err (v : Value C) : Value C := UnionType.result.make "Err" [v]

/-- A value accepted when it is not nil; otherwise another one refused. -/
def of (accepted refused : Value C) : Value C :=
  if accepted.isNil then err refused else ok accepted

end Result

/-- A number to be added. -/
def sumOf (x : Float) : Value C := .record .sum [.number x]

/-- A number to be multiplied. -/
def productOf (x : Float) : Value C := .record .product [.number x]

end DynamicDispatch
