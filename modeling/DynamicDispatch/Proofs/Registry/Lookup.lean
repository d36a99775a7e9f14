import DynamicDispatch.Proofs.Registry.Install
import Mathlib.Logic.Function.Basic

/-!
# Where collections can be looked into

From the start `get` and `keys` are registered for lists, texts, maps and the standard record types, and
for no other type. Declaring a record type registers both for it. This is what the comparison of
collections and the walk along paths rest on.
-/

namespace DynamicDispatch

variable {C : Type}

/-- The family whose methods the type of a value came with. -/
def Value.family : Value C → Family
  | .nil => .nil
  | .bool _ => .bool
  | .number _ => .number
  | .text _ => .text
  | .list _ => .list
  | .map _ => .map
  | .func _ => .function
  | .record _ _ => .record
  | .union _ _ _ => .union
  | .task _ => .task
  | .placeholder => .placeholder

namespace Registry

/-- Something is registered for a type that a method is looked up for. -/
theorem knows_of_lookup {r : Registry C} {key : TypeKey} {name : String}
    (h : (r.lookup key name).isSome = true) : r.knows key = true := by
  obtain ⟨f, hf⟩ := Option.isSome_iff_exists.mp h
  obtain ⟨e, he, -⟩ := Option.map_eq_some_iff.mp hf
  have hkey := List.find?_some he
  simp only [decide_eq_true_eq] at hkey
  exact List.any_eq_true.mpr ⟨e, List.mem_of_find?_eq_some he, by simp [hkey]⟩

/-- A protocol with at least one method is implemented for a type when each of its methods is looked
up there. -/
theorem implements_eq_true {p : Protocol} (hmethods : p.methods ≠ []) {r : Registry C}
    {key : TypeKey} :
    r.implements p key = true ↔ ∀ s ∈ p.methods, (r.lookup key s.name).isSome = true := by
  obtain ⟨s, hs⟩ := List.exists_mem_of_ne_nil p.methods hmethods
  rw [implements, Bool.and_eq_true, List.all_eq_true, and_iff_right_iff_imp]
  exact fun h => knows_of_lookup (h s hs)

/-- All families that are registered from the start, with their types, in order. -/
def standardParts (C : Type) : List (TypeKey × Family) := parts.flatMap (·.2) ++ standardTypes C

/-- The standard registry comes from installing these families one after the other. -/
theorem standard_eq_installPart : standard (C := C) = installPart (standardParts C) empty := by
  simp [standard, primitive, standardParts, parts, installPart]

/-- The standard methods are as they were installed: a type that exists from the start has each of them
from the family that provides it there. -/
def Standard (r : Registry C) : Prop :=
  ∀ (key : TypeKey) (family : Family) (m : Method),
    provider? (standardParts C) key m = some family → r.Provides key family m

/-- The registry with which everything starts has the standard methods as they were installed. -/
theorem standard_standard (n : Nat) : Standard ((standard (C := C)).run n).1 := by
  rw [standard_eq_installPart]
  exact fun key family m h => provides_installPart h empty n

/-- No type has a method that does not have it from the start. What is registered for everything iterable
is left open. -/
def Unextended (r : Registry C) (m : Method) : Prop :=
  ∀ key : TypeKey, key ≠ .iterator → provider? (standardParts C) key m = none →
    r.lookup key m.name = none

/-- In the standard registry this holds of every method. -/
theorem unextended_standard (m : Method) (n : Nat) :
    Unextended ((standard (C := C)).run n).1 m := by
  intro key _ h
  rw [standard_eq_installPart, lookup_installPart h]
  rfl

/-- A value of no declared type has the methods of its family as they were installed. -/
theorem Standard.provides_family {r : Registry C} (hr : r.Standard) {v : Value C}
    (hplain : v.kind = .plain) {m : Method} (hm : m ∈ v.family.methods) :
    r.Provides v.typeKey v.family m := by
  refine hr _ _ _ ?_
  cases v with
  | record type fields | union type index fields => cases hplain
  | _ =>
    simp only [Value.family] at hm
    simp [provider?, standardParts, parts, standardTypes, Value.typeKey, Value.family,
      RecordType.key, UnionType.key, hm]

/-- The record types that exist from the start, by identity. -/
def initialTypes (id : Nat) : Option (RecordType (Value C)) :=
  if id = 2 then some .sum else if id = 3 then some .product else none

/-- The family that makes it possible to look into values of a type, given the record types. -/
def keyedFamily? (types : Nat → Option (RecordType (Value C))) : TypeKey → Option Family
  | .list => some .list
  | .text => some .text
  | .map => some .map
  | .record id => (types id).map fun _ => .record
  | _ => none

/-- The methods of looking into a collection. -/
def lookups : List Method := [.get, .keys]

theorem mem_lookups {m : Method} : m ∈ lookups ↔ m = .get ∨ m = .keys := by
  simp [lookups]

/-- A family that makes it possible to look into values provides both methods. -/
theorem mem_methods_of_keyedFamily? {types : Nat → Option (RecordType (Value C))} {key : TypeKey}
    {family : Family} (h : keyedFamily? types key = some family) :
    ∀ m ∈ lookups, m ∈ family.methods := by
  cases key with
  | list | text | map =>
    obtain rfl := Option.some.inj h
    decide
  | record id =>
    obtain ⟨-, -, rfl⟩ := Option.map_eq_some_iff.mp h
    decide
  | _ => cases h

/-- The standard families provide look-up where it is expected. -/
theorem provider?_standardParts {m : Method} (hm : m ∈ lookups) (key : TypeKey) :
    provider? (standardParts C) key m = keyedFamily? (C := C) initialTypes key := by
  have hm := mem_lookups.mp hm
  cases key with
  | record id =>
    by_cases hsum : id = 2
    · subst hsum
      rcases hm with rfl | rfl <;> rfl
    · by_cases hproduct : id = 3
      · subst hproduct
        rcases hm with rfl | rfl <;> rfl
      · rcases hm with rfl | rfl <;>
          simp [provider?, standardParts, parts, standardTypes, keyedFamily?, initialTypes,
            Family.methods, RecordType.key, RecordType.sum, RecordType.product, UnionType.key,
            hsum, hproduct, Ne.symm hsum, Ne.symm hproduct]
  | union id =>
    rcases hm with rfl | rfl <;>
      simp [provider?, standardParts, parts, standardTypes, keyedFamily?, Family.methods,
        RecordType.key, UnionType.key]
  | _ => rcases hm with rfl | rfl <;> rfl

/-- Looking up is as it was installed: every type whose values can be looked into has both methods
from its family, and no other type has one. What is registered for everything iterable is left open,
since lists and texts have methods of their own. -/
structure StandardLookup (types : Nat → Option (RecordType (Value C))) (r : Registry C) : Prop where
  provides : ∀ (key : TypeKey) (family : Family), keyedFamily? types key = some family →
    ∀ m ∈ lookups, r.Provides key family m
  absent : ∀ key : TypeKey, key ≠ .iterator → keyedFamily? types key = none →
    ∀ m ∈ lookups, r.lookup key m.name = none

/-- The standard registry looks up as it was installed. -/
theorem standardLookup_standard (n : Nat) :
    StandardLookup initialTypes ((standard (C := C)).run n).1 := by
  refine ⟨fun key family h m hm => ?_, fun key _ h m hm => ?_⟩
  · exact standard_standard n key family m ((provider?_standardParts hm key).trans h)
  · rw [standard_eq_installPart, lookup_installPart ((provider?_standardParts hm key).trans h)]
    rfl

/-- Declaring a record type makes it possible to look into its records. -/
theorem StandardLookup.declareRecord {types : Nat → Option (RecordType (Value C))} {r : Registry C}
    (h : StandardLookup types r) (type : RecordType (Value C)) (n : Nat) :
    StandardLookup (Function.update types type.id (some type))
      ((r.installPart (recordPart type)).run n).1 := by
  -- The new type has both methods from the family of records; elsewhere nothing changes.
  have hsame : keyedFamily? (Function.update types type.id (some type)) type.key =
      some .record := by
    simp [keyedFamily?, RecordType.key]
  have hother : ∀ key, key ≠ type.key →
      keyedFamily? (Function.update types type.id (some type)) key = keyedFamily? types key := by
    intro key hkey
    cases key with
    | record id =>
      have hid : id ≠ type.id := fun hid => hkey (congrArg TypeKey.record hid)
      simp [keyedFamily?, Function.update_of_ne hid]
    | _ => rfl
  have hlookup : ∀ key, key ≠ type.key → ∀ m : Method,
      ((r.installPart (recordPart type)).run n).1.lookup key m.name = r.lookup key m.name := by
    intro key hkey m
    exact lookup_installPart (by simp [provider?, recordPart, Ne.symm hkey]) r n
  refine ⟨fun key family hfamily m hm => ?_, fun key hiter hfamily m hm => ?_⟩
  · by_cases hkey : key = type.key
    · subst hkey
      obtain rfl : Family.record = family := Option.some.inj (hsame.symm.trans hfamily)
      refine provides_installPart ?_ r n
      simpa [provider?, recordPart] using mem_methods_of_keyedFamily? hfamily m hm
    · rw [hother key hkey] at hfamily
      obtain ⟨id, next, hf⟩ := h.provides key family hfamily m hm
      exact ⟨id, next, (hlookup key hkey m).trans hf⟩
  · by_cases hkey : key = type.key
    · subst hkey
      rw [hsame] at hfamily
      cases hfamily
    · rw [hlookup key hkey m, h.absent key hiter (hother key hkey ▸ hfamily) m hm]

end Registry

end DynamicDispatch
