import DynamicDispatch.Collection.Lookup

/-!
# Maybes and results

A `Maybe` has the two forms of an option and a `Result` those of an outcome. A `Maybe` is flat when
normalizing what it holds does not change it: when it holds neither nil nor a `Maybe`.
-/

namespace DynamicDispatch

variable {C : Type}

/-- A value whose type is not the hole's is no hole. -/
theorem Value.isPlaceholder_of_typeKey_ne {v : Value C} (h : v.typeKey ≠ .placeholder) :
    v.isPlaceholder = false := by
  cases v <;> first | rfl | exact absurd rfl h

namespace Result

/-- An accepted or a refused value. -/
def ofExcept : Except (Value C) (Value C) → Value C
  | .ok v => ok v
  | .error e => err e

/-- It is a `Result`. -/
theorem typeKey_ofExcept (m : Except (Value C) (Value C)) :
    (ofExcept m).typeKey = (UnionType.result (C := C)).key := by
  cases m <;> rfl

end Result

namespace Maybe

/-- The value that is there, or none. -/
def ofOption : Option (Value C) → Value C
  | .some v => some v
  | .none => none

/-- A `Maybe` joined with what it holds: nil inside becomes none, and a `Maybe` inside takes its
place. -/
def flattened (m : Value C) : Value C :=
  match Collection.presentFields? m with
  | .some fields => of (argument fields 0)
  | .none => m

/-- Nothing, or a value that is neither nil nor a `Maybe`. -/
def Flat (m : Option (Value C)) : Prop :=
  ∀ v ∈ m, v.isNil = false ∧ UnionType.maybe.contains v = false

/-- A value of the type has its key. -/
theorem typeKey_of_contains {m : Value C} (hm : UnionType.maybe.contains m = true) :
    m.typeKey = (UnionType.maybe (C := C)).key := by
  cases m with
  | union type index fields => exact congrArg TypeKey.union (eq_of_beq hm)
  | _ => cases hm

/-- Both forms are of the type. -/
theorem contains_ofOption (m : Option (Value C)) : UnionType.maybe.contains (ofOption m) = true := by
  cases m <;> rfl

/-- A normalized value is of the type. -/
theorem contains_of (v : Value C) : UnionType.maybe.contains (of v) = true := by
  unfold of
  split
  · assumption
  · split <;> rfl

/-- Joining stays in the type. -/
theorem contains_flattened {m : Value C} (hm : UnionType.maybe.contains m = true) :
    UnionType.maybe.contains (flattened m) = true := by
  unfold flattened
  cases Collection.presentFields? m with
  | some fields => exact contains_of _
  | none => exact hm

/-- A `Maybe` is already normalized. -/
theorem of_eq_self {m : Value C} (hm : UnionType.maybe.contains m = true) : of m = m := by
  rw [of, if_pos hm]

/-- No value is held by itself. -/
theorem ne_some (v : Value C) : v ≠ some v := by
  intro h
  have hsize := congrArg sizeOf h
  simp only [some, UnionType.make, Value.union.sizeOf_spec, List.cons.sizeOf_spec] at hsize
  omega

/-- Exactly the values that are neither nil nor a `Maybe` are there as they are. -/
theorem of_eq_some_iff {v : Value C} :
    of v = some v ↔ v.isNil = false ∧ UnionType.maybe.contains v = false := by
  by_cases hmaybe : UnionType.maybe.contains v = true
  · simp [of_eq_self hmaybe, hmaybe, ne_some v]
  · rw [of, if_neg hmaybe]
    cases hnil : v.isNil with
    | true =>
      have hne : none ≠ some v := fun h => by cases congrArg Collection.presentFields? h
      simp [hne]
    | false => simpa using hmaybe

/-- Joining changes every `Maybe` but the flat ones. -/
theorem flattened_eq_iff (m : Option (Value C)) : flattened (ofOption m) = ofOption m ↔ Flat m := by
  cases m with
  | none =>
    have hjoined : flattened (ofOption (.none : Option (Value C))) = ofOption .none := rfl
    simp [Flat, hjoined]
  | some v =>
    have hjoined : flattened (ofOption (.some v)) = of v := rfl
    rw [hjoined, ofOption, of_eq_some_iff]
    simp [Flat]

end Maybe

end DynamicDispatch
