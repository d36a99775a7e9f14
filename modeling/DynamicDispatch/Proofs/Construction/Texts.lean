import DynamicDispatch.Proofs.Construction.Checking

/-!
# Texts in the reports of a construction

A failed construction reports descriptors and values as texts. Where a value cannot be rendered, the name
of its type stands in for it. Here the same reports are made with any other way of showing values, such as
one that insists on a rendering. As far as the two ways agree on the values that are shown, the
constructions agree.
-/

namespace DynamicDispatch

variable {C S : Type}

open DynamicDispatch.Action

/-- What relates an end to itself, and sequences whose parts it relates. -/
structure Action.Congruent (R : ∀ α : Type, Action C S α → Action C S α → Prop) : Prop where
  done : ∀ {α : Type} (r : Except Error α), R α (.done r) (.done r)
  bind : ∀ {α β : Type} {p q : Action C S α} {f g : α → Action C S β},
    R α p q → (∀ a, R β (f a) (g a)) → R β (p >>= f) (q >>= g)

/-- A value that is there is related to itself. -/
theorem Action.Congruent.pure {R : ∀ α : Type, Action C S α → Action C S α → Prop} (hR : Congruent R)
    {α : Type} (a : α) : R α (Pure.pure a) (Pure.pure a) :=
  hR.done (.ok a)

/-- The agreement on worlds of a kind is such a relation, for actions that leave such a world. -/
theorem Action.congruent_agreeOn [Embedding C S] (watch : Func C → Bool) (I : World C S → Prop) :
    Congruent (C := C) (S := S) fun _ p q => AgreeOn watch I p q ∧ q.Leaves watch I fun _ => True := by
  refine ⟨fun r => ⟨.refl _, ?_⟩, fun hpq hfg => ?_⟩
  · intro w hw calls a w' h
    obtain ⟨-, -, rfl⟩ := shows_done_iff.mp h
    exact ⟨hw, trivial⟩
  · exact ⟨hpq.1.bind hpq.2 fun a _ => (hfg a).1, hpq.2.bind fun a _ => (hfg a).2⟩

namespace Descriptor

variable (text : Value C → Action C S String)

mutual

/-- The text of a descriptor with its literals shown in a given way. -/
def renderBy : Descriptor (Value C) → Action C S String
  | .any => return "Any"
  | .nil => return "Null"
  | .bool => return "Boolean"
  | .number => return "Number"
  | .text => return "String"
  | .list => return "Array"
  | .map => return "Object"
  | .function => return "Function"
  | .task => return "Task"
  | .literal v => text v
  | .oneOf members => do return "OneOf(" ++ ", ".intercalate (← renderAllBy members) ++ ")"
  | .record name => return name
  | .union name case none => return patternName name case
  | .union name case (some fields) => do
    return patternName name case ++ "(" ++ ", ".intercalate (← renderAllBy fields) ++ ")"
  | .listOf element => do return "[ " ++ (← renderBy element) ++ " ]"
  | .shape entries => do
    return "\x7b " ++ ", ".intercalate (← renderEntriesBy entries) ++ " \x7d"

/-- The texts of descriptors in order. -/
def renderAllBy : List (Descriptor (Value C)) → Action C S (List String)
  | [] => return []
  | t :: ts => do return (← renderBy t) :: (← renderAllBy ts)

/-- The texts of a shape's entries in order. -/
def renderEntriesBy : List (String × Descriptor (Value C)) → Action C S (List String)
  | [] => return []
  | (k, t) :: rest => do return (k ++ ": " ++ (← renderBy t)) :: (← renderEntriesBy rest)

end

variable {text} {R : ∀ α : Type, Action C S α → Action C S α → Prop} (hR : Congruent R)

include hR

mutual

/-- Where the two ways of showing literals are related, so are the texts of a descriptor. -/
theorem renderBy_of_congruent : (t : Descriptor (Value C)) →
    (∀ v, t.Mentions v → R String (text v) (Generic.display v)) → R String (renderBy text t) t.render
  | .any, _ | .nil, _ | .bool, _ | .number, _ | .text, _ | .list, _ | .map, _ | .function, _
  | .task, _ | .record _, _ | .union _ _ none, _ => by
    unfold renderBy Descriptor.render
    exact hR.pure _
  | .literal v, h => by
    unfold renderBy Descriptor.render
    exact h v .literal
  | .oneOf members, h => by
    unfold renderBy Descriptor.render
    exact hR.bind (renderAllBy_of_congruent members fun t ht v hv => h v (.oneOf ht hv))
      fun _ => hR.pure _
  | .union _ _ (some fields), h => by
    unfold renderBy Descriptor.render
    exact hR.bind (renderAllBy_of_congruent fields fun t ht v hv => h v (.union ht hv))
      fun _ => hR.pure _
  | .listOf t, h => by
    unfold renderBy Descriptor.render
    exact hR.bind (renderBy_of_congruent t fun v hv => h v (.listOf hv)) fun _ => hR.pure _
  | .shape entries, h => by
    unfold renderBy Descriptor.render
    exact hR.bind (renderEntriesBy_of_congruent entries fun e he v hv => h v (.shape he hv))
      fun _ => hR.pure _

theorem renderAllBy_of_congruent : (ts : List (Descriptor (Value C))) →
    (∀ t ∈ ts, ∀ v, t.Mentions v → R String (text v) (Generic.display v)) →
      R (List String) (renderAllBy text ts) (renderAll ts)
  | [], _ => by
    unfold renderAllBy Descriptor.renderAll
    exact hR.pure _
  | t :: ts, h => by
    obtain ⟨hfirst, hrest⟩ := List.forall_mem_cons.mp h
    unfold renderAllBy Descriptor.renderAll
    exact hR.bind (renderBy_of_congruent t hfirst) fun _ =>
      hR.bind (renderAllBy_of_congruent ts hrest) fun _ => hR.pure _

theorem renderEntriesBy_of_congruent : (entries : List (String × Descriptor (Value C))) →
    (∀ e ∈ entries, ∀ v, e.2.Mentions v → R String (text v) (Generic.display v)) →
      R (List String) (renderEntriesBy text entries) (renderEntries entries)
  | [], _ => by
    unfold renderEntriesBy Descriptor.renderEntries
    exact hR.pure _
  | (k, t) :: entries, h => by
    obtain ⟨hfirst, hrest⟩ := List.forall_mem_cons.mp h
    unfold renderEntriesBy Descriptor.renderEntries
    exact hR.bind (renderBy_of_congruent t hfirst) fun _ =>
      hR.bind (renderEntriesBy_of_congruent entries hrest) fun _ => hR.pure _

end

end Descriptor

namespace Construction

variable (text : Value C → Action C S String)

/-- The fields that do not match, reported with values shown in a given way. -/
def violationsBy : List (String × Descriptor (Value C)) → List (Value C) →
    Action C S (List Violation)
  | [], _ => return []
  | (label, t) :: fields, values => do
    let v := values.headD .nil
    if t.accepts v then violationsBy fields values.tail
    else
      let violation : Violation := ⟨label, ← t.renderBy text, ← text v⟩
      return violation :: (← violationsBy fields values.tail)

/-- What can be shown when values are checked against fields: the literals of the fields, and the values,
nil for one that is missing. -/
inductive Shown (fields : List (String × Descriptor (Value C))) (values : List (Value C)) :
    Value C → Prop
  | literal {field : String × Descriptor (Value C)} {v : Value C} (hfield : field ∈ fields)
    (hv : field.2.Mentions v) : Shown fields values v
  | given (i : Nat) : Shown fields values (argument values i)

/-- What holds of the literals, of the values and of nil holds of all that can be shown. -/
theorem Shown.of_forall {fields : List (String × Descriptor (Value C))} {values : List (Value C)}
    {p : Value C → Prop} (hliterals : ∀ field ∈ fields, ∀ v, field.2.Mentions v → p v)
    (hvalues : ∀ v ∈ values, p v) (hnil : p .nil) {v : Value C} (h : Shown fields values v) : p v := by
  cases h with
  | literal hfield hv => exact hliterals _ hfield v hv
  | given i => exact argument_of_forall hnil hvalues i

variable {text} {R : ∀ α : Type, Action C S α → Action C S α → Prop} (hR : Congruent R)
  {fields : List (String × Descriptor (Value C))} {values : List (Value C)}

include hR

/-- Where the two ways of showing values are related, so are the reports. -/
theorem violationsBy_of_congruent
    (h : ∀ v, Shown fields values v → R String (text v) (Generic.display v)) :
    R (List Violation) (violationsBy text fields values) (violations fields values) := by
  induction fields generalizing values with
  | nil => exact hR.pure _
  | cons field fields ih =>
    obtain ⟨label, t⟩ := field
    have hfirst : values.headD .nil = argument values 0 := by cases values <;> rfl
    have hrest : R (List Violation) (violationsBy text fields values.tail)
        (violations fields values.tail) := by
      refine ih fun v hv => h v ?_
      cases hv with
      | literal hfield hv => exact .literal (List.mem_cons_of_mem _ hfield) hv
      | given i => exact argument_tail values i ▸ .given (i + 1)
    rw [violationsBy, violations, hfirst]
    split
    · exact hrest
    · have hexpected := Descriptor.renderBy_of_congruent hR t fun v hv =>
        h v (.literal (show (label, t) ∈ _ from List.mem_cons_self) hv)
      exact hR.bind hexpected fun _ => hR.bind (h _ (.given 0)) fun _ =>
        hR.bind hrest fun _ => hR.pure _

end Construction

/-- The construction of a record with the values in its report shown in a given way. -/
def RecordType.constructBy (text : Value C → Action C S String) (type : RecordType (Value C))
    (values : List (Value C)) : Action C S (Value C) := do
  let violations ← Construction.violationsBy text type.fields values
  if violations.isEmpty then return .record type (Construction.fit type.fields.length values)
  else
    let signature ← (Descriptor.shape type.fields).renderBy text
    .fail (.construction (type.name ++ "(" ++ signature ++ ")") violations)

/-- The construction of an instance of a case with the values in its report shown in a given way. -/
def UnionType.constructBy (text : Value C → Action C S String) (type : UnionType (Value C))
    (case : String) (values : List (Value C)) : Action C S (Value C) :=
  match type.caseFields? case with
  | none => .fail (.unknownCase type.name case)
  | some fields => do
    let violations ← Construction.violationsBy text (Construction.positions fields) values
    if violations.isEmpty then return type.make case (Construction.fit fields.length values)
    else
      let signature := ", ".intercalate (← Descriptor.renderAllBy text fields)
      .fail (.construction (type.name ++ "." ++ case ++ "(" ++ signature ++ ")") violations)

section Congruent

open Construction

variable {text : Value C → Action C S String} {R : ∀ α : Type, Action C S α → Action C S α → Prop}
  (hR : Congruent R) (values : List (Value C))

include hR

/-- Where the two ways of showing values are related, so are the constructions of a record. -/
theorem RecordType.constructBy_of_congruent {type : RecordType (Value C)}
    (h : ∀ v, Shown type.fields values v → R String (text v) (Generic.display v)) :
    R (Value C) (type.constructBy text values) (type.construct values) := by
  refine hR.bind (violationsBy_of_congruent hR h) fun violated => ?_
  split
  · exact hR.pure _
  · refine hR.bind (Descriptor.renderBy_of_congruent hR _ fun v hv => ?_) fun _ => hR.done _
    cases hv with
    | shape hfield hv => exact h v (.literal hfield hv)

/-- Where the two ways of showing values are related, so are the constructions of an instance. -/
theorem UnionType.constructBy_of_congruent {type : UnionType (Value C)} {case : String}
    {fields : List (Descriptor (Value C))} (hcase : type.caseFields? case = some fields)
    (h : ∀ v, Shown (positions fields) values v → R String (text v) (Generic.display v)) :
    R (Value C) (type.constructBy text case values) (type.construct case values) := by
  simp only [UnionType.constructBy, UnionType.construct, hcase]
  refine hR.bind (violationsBy_of_congruent hR h) fun violated => ?_
  split
  · exact hR.pure _
  · refine hR.bind (Descriptor.renderAllBy_of_congruent hR _ fun t ht v hv => ?_) fun _ => hR.done _
    rw [← map_snd_positions fields] at ht
    obtain ⟨field, hfield, rfl⟩ := List.mem_map.mp ht
    exact h v (.literal hfield hv)

end Congruent

end DynamicDispatch
