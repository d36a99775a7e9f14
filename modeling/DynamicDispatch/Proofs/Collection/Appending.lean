import DynamicDispatch.Proofs.Dispatch
import DynamicDispatch.Proofs.Registry.Lookup

/-!
# Appending within a carrier

Lists and texts are appended end to end. A `Maybe` and a `Result` append what they hold by asking the
registry again, drop one of two operands that hold values of different kinds, and have an empty value
that depends on the instance. So what is appended within one carrier is described by a join of its
elements, which is associative and has a unit beside every element, and the methods are shown to do what
the join does.
-/

namespace DynamicDispatch.Collection

variable {C S : Type}

/-- The types of values that are appended to each other: lists, texts, and the `Maybe` and `Result`
instances that hold such values. -/
inductive Carrier where
  | list
  | text
  | maybe (inside : Carrier)
  | result (accepted refused : Carrier)

namespace Carrier

/-- The members of a carrier. -/
def Elem (C : Type) : Carrier → Type
  | .list => List (Value C)
  | .text => String
  | .maybe c => Option (c.Elem C)
  | .result c d => Except (d.Elem C) (c.Elem C)

/-- A member as a value. -/
def value : (c : Carrier) → c.Elem C → Value C
  | .list, items => .list items
  | .text, s => .text s
  | .maybe _, none => Maybe.none
  | .maybe c, some a => Maybe.some (c.value a)
  | .result c _, .ok a => Result.ok (c.value a)
  | .result _ d, .error b => Result.err (d.value b)

/-- Two outcomes joined: accepted values by one operation, refused ones by another, and a refused value
stays before an accepted one. -/
def joinOutcomes {A B : Type} (accepted : A → A → A) (refused : B → B → B) :
    Except B A → Except B A → Except B A
  | .ok a, .ok as => .ok (accepted a as)
  | .error b, .error bs => .error (refused b bs)
  | .error b, .ok _ => .error b
  | .ok _, .error bs => .error bs

/-- Outcomes are joined associatively when accepted and refused values are. -/
theorem joinOutcomes_assoc {A B : Type} {accepted : A → A → A} {refused : B → B → B}
    (haccepted : ∀ z y x, accepted z (accepted y x) = accepted (accepted z y) x)
    (hrefused : ∀ z y x, refused z (refused y x) = refused (refused z y) x) (z y x : Except B A) :
    joinOutcomes accepted refused z (joinOutcomes accepted refused y x) =
      joinOutcomes accepted refused (joinOutcomes accepted refused z y) x := by
  cases z <;> cases y <;> cases x <;> simp only [joinOutcomes, haccepted, hrefused]

/-- A member of a carrier appended to another one. -/
def join : (c : Carrier) → c.Elem C → c.Elem C → c.Elem C
  | .list => fun (items target : List (Value C)) => target ++ items
  | .text => fun (s target : String) => target ++ s
  | .maybe c => Option.merge c.join
  | .result c d => joinOutcomes c.join d.join

/-- What is empty beside a member: of a `Result`, the empty value of what it holds, in the same case. -/
def unit : (c : Carrier) → c.Elem C → c.Elem C
  | .list, _ => ([] : List (Value C))
  | .text, _ => ""
  | .maybe _, _ => none
  | .result c _, .ok a => .ok (c.unit a)
  | .result _ d, .error b => .error (d.unit b)

/-- Appending is associative. -/
theorem join_assoc (c : Carrier) (z y x : c.Elem C) :
    c.join z (c.join y x) = c.join (c.join z y) x := by
  induction c with
  | list => exact List.append_assoc (x : List (Value C)) y z
  | text => exact String.append_assoc
  | maybe c ih =>
    have : Std.Associative (c.join (C := C)) := ⟨fun z y x => (ih z y x).symm⟩
    have hmerge : Std.Associative (Option.merge (c.join (C := C))) := inferInstance
    exact (hmerge.assoc z y x).symm
  | result c d ihc ihd => exact joinOutcomes_assoc ihc ihd z y x

/-- A member appended to its unit is itself. -/
theorem join_unit (c : Carrier) (x : c.Elem C) : c.join x (c.unit x) = x := by
  induction c with
  | list => exact List.nil_append (x : List (Value C))
  | text => exact String.empty_append
  | maybe c ih => cases x <;> rfl
  | result c d ihc ihd =>
    cases x with
    | ok a => exact congrArg Except.ok (ihc a)
    | error b => exact congrArg Except.error (ihd b)

/-- Its unit appended to a member changes nothing. -/
theorem unit_join (c : Carrier) (x : c.Elem C) : c.join (c.unit x) x = x := by
  induction c with
  | list => exact List.append_nil (x : List (Value C))
  | text => exact String.append_empty
  | maybe c ih => cases x <;> rfl
  | result c d ihc ihd =>
    cases x with
    | ok a => exact congrArg Except.ok (ihc a)
    | error b => exact congrArg Except.error (ihd b)

/-- The family that appends the members of a carrier. -/
def family : Carrier → Family
  | .list => .list
  | .text => .text
  | .maybe _ => .maybe
  | .result _ _ => .result

/-- A member is no hole. -/
theorem isPlaceholder_value (c : Carrier) (x : c.Elem C) : (c.value x).isPlaceholder = false := by
  cases c with
  | maybe c | result c d => cases x <;> rfl
  | _ => rfl

/-- In the standard registry members are appended, and have an empty value, by the carrier's family. -/
theorem provides_value {r : Registry C} (hr : r.Standard) (c : Carrier) (x : c.Elem C) {m : Method}
    (hm : m = .append ∨ m = .empty) : r.Provides (c.value x).typeKey c.family m := by
  rcases hm with rfl | rfl
  all_goals
    cases c with
    | maybe c | result c d => cases x <;> exact hr _ _ _ rfl
    | _ => exact hr _ _ _ rfl

end Carrier

open DynamicDispatch.Action

variable [Embedding C S] {w : World C S}

namespace Carrier

/-- Appending two members is what the carrier's family does. -/
theorem yields_append_of_family (hw : w.registry.Standard) {c : Carrier} {x xs : c.Elem C}
    {r : Except Error (Value C)}
    (h : (c.family.implementation .append [c.value x, c.value xs]).Yields w r w) :
    (Generic.append (c.value x) (c.value xs)).Yields w r w := by
  have hgiven : ∀ v ∈ [c.value x, c.value xs], v.isPlaceholder = false := by
    simp [isPlaceholder_value]
  exact Yields.method (provides_value hw c xs (Or.inl rfl)) rfl hgiven h

/-- A text appended to a text is put after it. -/
theorem yields_joinText (s target : String) :
    (Methods.joinText .append [.text s, .text target]).Yields w
      (.ok (.text (target ++ s) : Value C)) w := by
  have hjoined : String.ofList target.toList ++ s = target ++ s := by rw [String.ofList_toList]
  rw [← hjoined]
  exact yields_pure _ w

/-- Appending two members gives the join of them. -/
theorem yields_append (hw : w.registry.Standard) (c : Carrier) (x xs : c.Elem C) :
    (Generic.append (c.value x) (c.value xs)).Yields w (.ok (c.value (c.join x xs))) w := by
  induction c with
  | list => exact yields_append_of_family hw (yields_pure _ w)
  | text => exact yields_append_of_family hw (yields_joinText x xs)
  | maybe c ih =>
    refine yields_append_of_family hw ?_
    -- Only two values that are there ask for what is inside to be appended.
    cases x with
    | none => cases xs <;> exact yields_pure _ w
    | some a =>
      cases xs with
      | none => exact yields_pure _ w
      | some as => exact (ih a as).bind (yields_pure _ w)
  | result c d ihc ihd =>
    refine yields_append_of_family hw ?_
    cases x with
    | ok a =>
      cases xs with
      | ok as => exact (ihc a as).bind (yields_pure _ w)
      | error bs => exact yields_pure _ w
    | error b =>
      cases xs with
      | ok as => exact yields_pure _ w
      | error bs => exact (ihd b bs).bind (yields_pure _ w)

/-- The empty value of a member is its unit. -/
theorem yields_empty (hw : w.registry.Standard) (c : Carrier) (x : c.Elem C) :
    (Generic.empty (c.value x)).Yields w (.ok (c.value (c.unit x))) w := by
  have hmethod : ∀ {c : Carrier} {x : c.Elem C} {r : Except Error (Value C)},
      (c.family.implementation .empty [c.value x]).Yields w r w →
        (Generic.empty (c.value x)).Yields w r w := by
    intro c x r
    exact Yields.method (provides_value hw c x (Or.inr rfl)) rfl (by simp [isPlaceholder_value])
  induction c with
  | result c d ihc ihd =>
    cases x with
    | ok a => exact hmethod ((ihc a).bind (yields_pure _ w))
    | error b => exact hmethod ((ihd b).bind (yields_pure _ w))
  | _ => exact hmethod (yields_pure _ w)

end Carrier

/-- Within every carrier appending never fails and stays inside, three members can be appended in either
order, and every member has an empty value that changes nothing on either side. Nothing else happens. -/
theorem carriers_append (hw : w.registry.Standard) (c : Carrier) (x y z : c.Elem C) :
    (∃ yx, (Generic.append (c.value y) (c.value x)).Yields w (.ok (c.value yx)) w) ∧
    (∃ zyx, (do Generic.append (c.value z) (← Generic.append (c.value y) (c.value x))).Yields w
        (.ok (c.value zyx)) w ∧
      (do Generic.append (← Generic.append (c.value z) (c.value y)) (c.value x)).Yields w
        (.ok (c.value zyx)) w) ∧
    (do Generic.append (← Generic.empty (c.value x)) (c.value x)).Yields w (.ok (c.value x)) w ∧
    (do Generic.append (c.value x) (← Generic.empty (c.value x))).Yields w (.ok (c.value x)) w := by
  have happend := Carrier.yields_append hw c
  have hempty := Carrier.yields_empty hw c x
  refine ⟨⟨_, happend y x⟩, ⟨c.join z (c.join y x), (happend y x).bind (happend z _), ?_⟩, ?_, ?_⟩
  · rw [c.join_assoc]
    exact (happend z y).bind (happend _ x)
  · have hleft := hempty.bind (f := (Generic.append · (c.value x))) (happend (c.unit x) x)
    rwa [c.unit_join] at hleft
  · have hright := hempty.bind (happend x (c.unit x))
    rwa [c.join_unit] at hright

/-- Results that hold possible texts or lists, two accepted and one refused, at the start. -/
theorem carriers_append_mixed :
    let w : World Empty Unit := World.initial ()
    let x : Value Empty := Result.ok (Maybe.some (.text "a"))
    let y : Value Empty := Result.ok Maybe.none
    let z : Value Empty := Result.err (.list [.placeholder])
    (∃ zyx, (do Generic.append z (← Generic.append y x)).Yields w (.ok zyx) w ∧
      (do Generic.append (← Generic.append z y) x).Yields w (.ok zyx) w) ∧
    (do Generic.append (← Generic.empty z) z).Yields w (.ok z) w := by
  intro w x y z
  have hw : w.registry.Standard := Registry.standard_standard firstFreeId
  let c : Carrier := .result (.maybe .text) .list
  let refused : c.Elem Empty := .error [.placeholder]
  obtain ⟨-, ⟨zyx, hfirst, hsecond⟩, -⟩ := carriers_append hw c (.ok (some "a")) (.ok none) refused
  obtain ⟨-, -, hunit, -⟩ := carriers_append hw c refused refused refused
  exact ⟨⟨c.value zyx, hfirst, hsecond⟩, hunit⟩

end DynamicDispatch.Collection
