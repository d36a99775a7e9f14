import DynamicDispatch.Proofs.Construction.Checking

/-!
# Weakening descriptors

One descriptor implies another one when what it accepts is accepted by the other. Each form of descriptor
that holds descriptors looks at the parts of a value through them only, and a value that it does not take
apart is accepted by no other rule. So an implication passes through all forms, at any depth, and a record
type or a case whose fields are weakened constructs from all values that it constructed from before.

The values are those of any class that goes with parts and holds nil, which a missing field counts as: all
values, or those that conform, or those of one run, in which no two types share an identity.
-/

namespace DynamicDispatch

variable {C S : Type}

/-- What holds of nil, and of the parts of all values that it holds of. -/
structure Value.PassesToParts (φ : Value C → Prop) : Prop where
  parts : ∀ {v x : Value C}, φ v → x ∈ v.parts → φ x
  nil : φ .nil

namespace Descriptor

/-- Of the values that `φ` holds of, those that one descriptor accepts are accepted by another. -/
def Implies (φ : Value C → Prop) (s t : Descriptor (Value C)) : Prop :=
  ∀ v, φ v → s.accepts v = true → t.accepts v = true

/-- A descriptor with a hole in it. -/
inductive Context (V : Type) where
  | hole
  | oneOf (before : List (Descriptor V)) (inner : Context V) (after : List (Descriptor V))
  | union (name case : Option String) (before : List (Descriptor V)) (inner : Context V)
    (after : List (Descriptor V))
  | listOf (inner : Context V)
  | shape (before : List (String × Descriptor V)) (key : String) (inner : Context V)
    (after : List (String × Descriptor V))

/-- The descriptor with another one in the place of the hole. -/
def Context.fill {V : Type} (t : Descriptor V) : Context V → Descriptor V
  | .hole => t
  | .oneOf before inner after => .oneOf (before ++ inner.fill t :: after)
  | .union name case before inner after => .union name case (some (before ++ inner.fill t :: after))
  | .listOf inner => .listOf (inner.fill t)
  | .shape before key inner after => .shape (before ++ (key, inner.fill t) :: after)

variable {φ : Value C → Prop} {s t : Descriptor (Value C)}

/-- A descriptor implies itself. -/
theorem Implies.refl (t : Descriptor (Value C)) : Implies φ t t := fun _ _ h => h

/-- Implications between the members of two lists are kept when both lists get the same siblings. -/
theorem forall₂_siblings {α : Type} {R : α → α → Prop} (hrefl : ∀ a, R a a) {a b : α} (h : R a b)
    (before after : List α) : List.Forall₂ R (before ++ a :: after) (before ++ b :: after) :=
  List.rel_append (List.forall₂_same.mpr fun a _ => hrefl a)
    (.cons h (List.forall₂_same.mpr fun a _ => hrefl a))

/-- Choices imply each other as their members do. -/
theorem Implies.oneOf {members members' : List (Descriptor (Value C))}
    (h : List.Forall₂ (Implies φ) members members') : Implies φ (.oneOf members) (.oneOf members') := by
  intro v hv haccepts
  simp only [accepts] at haccepts ⊢
  induction h with
  | nil => exact haccepts
  | cons hfirst _ ih =>
    simp only [someAccepts, Bool.or_eq_true] at haccepts ⊢
    exact haccepts.imp (hfirst v hv) ih

/-- Fields that are implied by others accept the values that these accept. -/
theorem acceptsFields_of_implies (hnil : φ .nil) {fields fields' : List (Descriptor (Value C))}
    (h : List.Forall₂ (Implies φ) fields fields') {values : List (Value C)}
    (hvalues : ∀ v ∈ values, φ v) (haccepts : acceptsFields fields values = true) :
    acceptsFields fields' values = true := by
  induction h generalizing values with
  | nil => exact haccepts
  | cons hfirst _ ih =>
    rw [acceptsFields_cons, Bool.and_eq_true] at haccepts ⊢
    refine ⟨hfirst _ ?_ haccepts.1, ih (fun v hv => hvalues v (List.mem_of_mem_tail hv)) haccepts.2⟩
    cases values with
    | nil => exact hnil
    | cons v values => exact hvalues v List.mem_cons_self

/-- Patterns imply each other as their fields do. -/
theorem Implies.union (hφ : Value.PassesToParts φ) (name case : Option String)
    {fields fields' : List (Descriptor (Value C))} (h : List.Forall₂ (Implies φ) fields fields') :
    Implies φ (.union name case (some fields)) (.union name case (some fields')) := by
  intro v hv haccepts
  cases v with
  | union type index values =>
    simp only [accepts, Bool.and_eq_true] at haccepts ⊢
    exact ⟨haccepts.1, acceptsFields_of_implies hφ.nil h (fun x hx => hφ.parts hv hx) haccepts.2⟩
  | _ => simp [accepts] at haccepts

/-- Descriptors of lists imply each other as those of the elements do. -/
theorem Implies.listOf (hφ : Value.PassesToParts φ) (h : Implies φ s t) :
    Implies φ (.listOf s) (.listOf t) := by
  intro v hv haccepts
  cases v with
  | list items =>
    simp only [accepts, acceptsAll, List.all_eq_true] at haccepts ⊢
    exact fun x hx => h x (hφ.parts hv hx) (haccepts x hx)
  | _ => simp [accepts] at haccepts

/-- Shapes with the same keys imply each other as the descriptors under the keys do. -/
theorem Implies.shape (hφ : Value.PassesToParts φ)
    {entries entries' : List (String × Descriptor (Value C))}
    (h : List.Forall₂ (fun e e' => e.1 = e'.1 ∧ Implies φ e.2 e'.2) entries entries') :
    Implies φ (.shape entries) (.shape entries') := by
  intro v hv haccepts
  cases v with
  | map values =>
    simp only [accepts] at haccepts ⊢
    induction h with
    | nil => exact haccepts
    | @cons e e' _ _ hfirst _ ih =>
      obtain ⟨k, s⟩ := e
      obtain ⟨k', t⟩ := e'
      obtain ⟨rfl, himplies⟩ := hfirst
      simp only [acceptsEntries, Bool.and_eq_true] at haccepts ⊢
      refine ⟨?_, ih haccepts.2⟩
      cases hfound : Entries.find? k values with
      | none => simp [hfound] at haccepts
      | some x =>
        rw [hfound] at haccepts
        have hx : x ∈ (Value.map values).parts :=
          List.mem_map_of_mem (Entries.mem_of_find?_eq_some hfound)
        exact himplies x (hφ.parts hv hx) haccepts.1
  | _ => simp [accepts] at haccepts

/-- An implication passes through every context. -/
theorem Implies.fill (hφ : Value.PassesToParts φ) (h : Implies φ s t) (D : Context (Value C)) :
    Implies φ (D.fill s) (D.fill t) := by
  induction D with
  | hole => exact h
  | oneOf before inner after ih => exact .oneOf (forall₂_siblings .refl ih before after)
  | union name case before inner after ih =>
    exact .union hφ name case (forall₂_siblings .refl ih before after)
  | listOf inner ih => exact .listOf hφ ih
  | shape before key inner after ih =>
    exact .shape hφ (forall₂_siblings (fun e => ⟨rfl, .refl e.2⟩) ⟨rfl, ih⟩ before after)

end Descriptor

namespace Construction

open Descriptor (Implies)

variable {φ : Value C → Prop}

/-- Values that are accepted by fields are accepted by fields that these imply. -/
theorem Accepts.of_implies (hnil : φ .nil) {fields fields' : List (String × Descriptor (Value C))}
    (h : List.Forall₂ (Implies φ) (fields.map (·.2)) (fields'.map (·.2))) {values : List (Value C)}
    (hvalues : ∀ v ∈ values, φ v) (haccepts : Accepts fields values) : Accepts fields' values :=
  accepts_iff_acceptsFields.mpr
    (Descriptor.acceptsFields_of_implies hnil h hvalues (accepts_iff_acceptsFields.mp haccepts))

variable [Embedding C S]

/-- What is constructed with some fields is constructed with fields that these imply, and the same values
are stored. -/
theorem Checks.of_implies {fields fields' : List (String × Descriptor (Value C))}
    {stored stored' : List (Value C) → Value C}
    {construct construct' : List (Value C) → Action C S (Value C)}
    (hchecks : Checks S fields stored construct) (hchecks' : Checks S fields' stored' construct')
    (hnil : φ .nil) (h : List.Forall₂ (Implies φ) (fields.map (·.2)) (fields'.map (·.2)))
    {values : List (Value C)} (hvalues : ∀ v ∈ values, φ v) {w w' : World C S} {v : Value C}
    (hyields : (construct values).Yields w (.ok v) w') :
    ∃ kept, v = stored kept ∧ (construct' values).Yields w (.ok (stored' kept)) w' := by
  obtain ⟨haccepts, hv, hw⟩ := (hchecks.succeeds_iff _ _ _ _).mp hyields
  have hlength : fields.length = fields'.length := by simpa using h.length_eq
  exact ⟨_, hv, (hchecks'.succeeds_iff _ _ _ _).mpr
    ⟨haccepts.of_implies hnil h hvalues, by rw [hlength], hw⟩⟩

end Construction

open Descriptor (Implies)

variable [Embedding C S]

/-- A descriptor that implies another one, on all values or on a class that passes to parts, does so in
every context. Hence where the fields of a record type or of a case imply those of another one, the other
constructs from all values from which the first constructs, and the instances hold the same. -/
theorem weakening_keeps_acceptance (φ : Value C → Prop) (hφ : Value.PassesToParts φ) :
    (∀ s t, Implies φ s t → ∀ D : Descriptor.Context (Value C), Implies φ (D.fill s) (D.fill t)) ∧
    (∀ type type' : RecordType (Value C),
      List.Forall₂ (Implies φ) (type.fields.map (·.2)) (type'.fields.map (·.2)) →
      ∀ values, (∀ v ∈ values, φ v) →
      ∀ (w : World C S) v w', (type.construct values).Yields w (.ok v) w' →
        ∃ kept, v = .record type kept ∧ (type'.construct values).Yields w (.ok (.record type' kept)) w') ∧
    ∀ (type type' : UnionType (Value C)) case fields fields', type.caseFields? case = some fields →
      type'.caseFields? case = some fields' → List.Forall₂ (Implies φ) fields fields' →
      ∀ values, (∀ v ∈ values, φ v) →
      ∀ (w : World C S) v w', (type.construct case values).Yields w (.ok v) w' →
        ∃ kept, v = type.make case kept ∧
          (type'.construct case values).Yields w (.ok (type'.make case kept)) w' := by
  refine ⟨fun s t h D => h.fill hφ D, fun type type' h values hvalues w v w' hyields =>
      type.checks.of_implies type'.checks hφ.nil h hvalues hyields,
    fun type type' case fields fields' hcase hcase' h values hvalues w v w' hyields => ?_⟩
  refine (UnionType.checks hcase).of_implies (UnionType.checks hcase') hφ.nil ?_ hvalues hyields
  rwa [Construction.map_snd_positions, Construction.map_snd_positions]

/-- A number or nil in the place of a number: as the field of an instance under a key of the maps of a list,
and as the field of a record and of a case, which are constructed from a number as before. -/
theorem weakening_keeps_acceptance_number :
    let φ : Value Empty → Prop := Value.Conforming
    let w : World Empty Unit := World.initial ()
    let t : Descriptor (Value Empty) := .oneOf [.nil, .number]
    let D : Descriptor.Context (Value Empty) :=
      .listOf (.shape [("id", .text)] "size" (.union (some "Maybe") none [] .hole [.any]) [])
    let box : RecordType (Value Empty) := ⟨100, "Box", [("size", t)]⟩
    let shape : UnionType (Value Empty) := ⟨101, "Shape", [("Point", []), ("Square", [t])]⟩
    Value.PassesToParts φ ∧ Implies φ .number t ∧ Implies φ (D.fill .number) (D.fill t) ∧
      (box.construct [.number 2]).Yields w (.ok (.record box [.number 2])) w ∧
      (shape.construct "Square" [.number 2]).Yields w (.ok (.union shape 1 [.number 2])) w := by
  intro φ w t D box shape
  let strictBox : RecordType (Value Empty) := ⟨102, "Box", [("size", .number)]⟩
  let strictShape : UnionType (Value Empty) := ⟨103, "Shape", [("Point", []), ("Square", [.number])]⟩
  have hφ : Value.PassesToParts φ :=
    ⟨Value.Conforming.of_mem_parts, Value.Conforming.hereditary.atom rfl rfl⟩
  have ht : Implies φ .number t := by
    intro v _ haccepts
    simp [t, Descriptor.accepts, Descriptor.someAccepts, haccepts]
  have hvalues : ∀ v ∈ [Value.number 2], φ v :=
    List.forall_mem_singleton.mpr (Value.Conforming.hereditary.atom rfl rfl)
  have haccepts : ∀ label : String, Construction.Accepts (C := Empty) [(label, .number)] [.number 2] := by
    intro label
    simp [Construction.accepts_iff_acceptsFields, Descriptor.acceptsFields, Descriptor.accepts]
  obtain ⟨hcontexts, hrecords, hunions⟩ := weakening_keeps_acceptance (S := Unit) φ hφ
  refine ⟨hφ, ht, hcontexts _ _ ht D, ?_, ?_⟩
  · have hyields := (strictBox.checks.succeeds_iff [.number 2] w _ w).mpr ⟨haccepts "size", rfl, rfl⟩
    obtain ⟨kept, hkept, h⟩ := hrecords strictBox box (.cons ht .nil) _ hvalues _ _ _ hyields
    cases hkept
    exact h
  · have hcase : strictShape.caseFields? "Square" = some [.number] := rfl
    have hyields := ((UnionType.checks hcase).succeeds_iff [.number 2] w _ w).mpr
      ⟨haccepts "0", rfl, rfl⟩
    obtain ⟨kept, hkept, h⟩ :=
      hunions strictShape shape "Square" _ [t] hcase rfl (.cons ht .nil) _ hvalues _ _ _ hyields
    cases hkept
    exact h

end DynamicDispatch
