import DynamicDispatch.Conformance
import DynamicDispatch.Proofs.Methods.Argument

/-!
# Conforming values

In a conforming value every record has exactly one value for each declared field, every union instance
is of a declared case of its type and has exactly one value for each field of the case, and all these
values match the declared descriptors, at every depth. This is a property that passes on.
-/

namespace DynamicDispatch

variable {C : Type}

/-- The values that conform to the declared types, at every depth. -/
inductive Value.Conforming : Value C → Prop
  | plain {v : Value C} (hkind : v.kind = .plain) (hparts : ∀ x ∈ v.parts, Conforming x) :
    Conforming v
  | record {type : RecordType (Value C)} {fields : List (Value C)}
    (hfields : List.Forall₂ (fun declared v => declared.2.accepts v = true) type.fields fields)
    (hparts : ∀ x ∈ fields, Conforming x) : Conforming (.record type fields)
  | union {type : UnionType (Value C)} {index : Nat} {fields : List (Value C)}
    {case : String × List (Descriptor (Value C))} (hcase : type.cases[index]? = some case)
    (hfields : List.Forall₂ (fun t v => t.accepts v = true) case.2 fields)
    (hparts : ∀ x ∈ fields, Conforming x) : Conforming (.union type index fields)

namespace Value.Conforming

/-- The values inside a conforming value conform. -/
theorem of_mem_parts {v x : Value C} (h : v.Conforming) (hx : x ∈ v.parts) : x.Conforming := by
  cases h with
  | plain _ hparts => exact hparts x hx
  | record _ hparts => exact hparts x hx
  | union _ _ hparts => exact hparts x hx

/-- An instance whose case has one field that admits every value. -/
theorem union_any {type : UnionType (Value C)} {index : Nat} {v : Value C} (name : String)
    (hcase : type.cases[index]? = some (name, [.any])) (hv : v.Conforming) :
    (Value.union type index [v]).Conforming := by
  refine .union hcase (.cons ?_ .nil) (List.forall_mem_singleton.mpr hv)
  simp [Descriptor.accepts]

/-- The instances of `Result` that hold a conforming value conform, whatever case is asked for. -/
theorem make_result {v : Value C} (case : String) (hv : v.Conforming) :
    (UnionType.result.make case [v]).Conforming := by
  have hindex : ((UnionType.result (C := C)).caseIndex? case).getD 0 < 2 := by
    cases hcase : (UnionType.result (C := C)).caseIndex? case with
    | none => decide
    | some i => exact (List.findIdx?_eq_some_iff_getElem.mp hcase).1
  unfold UnionType.make
  generalize ((UnionType.result (C := C)).caseIndex? case).getD 0 = index at hindex ⊢
  match index with
  | 0 => exact union_any "Ok" rfl hv
  | 1 => exact union_any "Err" rfl hv

/-- A record with one number, declared so, conforms. -/
theorem record_number {type : RecordType (Value C)} {label : String} (x : Float)
    (hfields : type.fields = [(label, .number)]) : (Value.record type [.number x]).Conforming := by
  refine .record ?_ (List.forall_mem_singleton.mpr (.plain rfl fun _ hy => absurd hy List.not_mem_nil))
  rw [hfields]
  exact .cons (by simp [Descriptor.accepts]) .nil

/-- The instance of `Maybe` that holds nothing conforms. -/
theorem make_none : (Maybe.none (C := C)).Conforming := by
  have hcase : (UnionType.maybe (C := C)).cases[1]? = some ("None", []) := rfl
  exact .union hcase .nil fun _ hx => absurd hx List.not_mem_nil

/-- Conforming is passed on. -/
theorem hereditary : Hereditary (Conforming (C := C)) where
  parts := of_mem_parts
  plain := .plain
  some hv := union_any "Some" rfl hv
  none := make_none
  result := make_result
  sum x := record_number x rfl
  product x := record_number x rfl

end Value.Conforming

end DynamicDispatch
