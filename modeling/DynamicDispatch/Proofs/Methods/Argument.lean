import DynamicDispatch.Proofs.Action.Terms
import DynamicDispatch.Proofs.Value.Entries
import DynamicDispatch.Methods.Provided

/-!
# Passing values on

The implementations of the standard methods take values apart, put values together and pass them to
functions. A property of values that is at home in all of this, such as conforming to declared types,
is hereditary; terms pass it on when calls with such arguments may be made and answer with such
values. What is needed of arguments, and of the calls of standard methods, is derived here once.
-/

namespace DynamicDispatch

variable {C S α : Type}

/-- The values directly inside a value. -/
def Value.parts : Value C → List (Value C)
  | .list items => items
  | .map entries => entries.map (·.2)
  | .record _ fields => fields
  | .union _ _ fields => fields
  | _ => []

/-- A property of values that goes over to the values inside, that values of no declared type have
when the values inside do, and that the instances of the standard types have. -/
structure Hereditary (φ : Value C → Prop) : Prop where
  parts : ∀ {v x}, φ v → x ∈ v.parts → φ x
  plain : ∀ {v}, v.kind = .plain → (∀ x ∈ v.parts, φ x) → φ v
  some : ∀ {v}, φ v → φ (Maybe.some v)
  none : φ Maybe.none
  result : ∀ {v} (case : String), φ v → φ (UnionType.result.make case [v])
  sum : ∀ x, φ (sumOf x)
  product : ∀ x, φ (productOf x)

namespace Hereditary

variable {φ : Value C → Prop}

/-- Values without parts have a hereditary property. -/
theorem atom (h : Hereditary φ) {v : Value C} (hkind : v.kind = .plain) (hparts : v.parts = []) :
    φ v :=
  h.plain hkind fun _ hx => absurd (hparts ▸ hx) List.not_mem_nil

theorem list_iff (h : Hereditary φ) {xs : List (Value C)} : φ (.list xs) ↔ ∀ x ∈ xs, φ x :=
  ⟨fun hxs _ hx => h.parts hxs hx, fun hxs => h.plain rfl hxs⟩

theorem map_iff (h : Hereditary φ) {entries : List (String × Value C)} :
    φ (.map entries) ↔ ∀ e ∈ entries, φ e.2 :=
  ⟨fun hentries e he => h.parts hentries (List.mem_map_of_mem he),
    fun hentries => h.plain rfl fun _ hx => by
      obtain ⟨e, he, rfl⟩ := List.mem_map.mp hx
      exact hentries e he⟩

/-- The values that may be missing. -/
theorem getD (h : Hereditary φ) {o : Option (Value C)} (ho : ∀ v, o = Option.some v → φ v) :
    φ (o.getD .nil) := by
  cases o with
  | none => exact h.atom rfl rfl
  | some v => exact ho v rfl

theorem argument (h : Hereditary φ) {args : List (Value C)} (hargs : ∀ v ∈ args, φ v) (i : Nat) :
    φ (DynamicDispatch.argument args i) :=
  argument_of_forall (h.atom rfl rfl) hargs i

theorem lastArgument (h : Hereditary φ) {args : List (Value C)} (hargs : ∀ v ∈ args, φ v) :
    φ (DynamicDispatch.lastArgument args) :=
  h.getD fun v hv => hargs v (List.mem_of_getLast? hv)

theorem headD (h : Hereditary φ) {xs : List (Value C)} (hxs : ∀ x ∈ xs, φ x) : φ (xs.headD .nil) := by
  cases xs with
  | nil => exact h.atom rfl rfl
  | cons x xs => exact hxs x List.mem_cons_self

/-- A value that may be absent, as a `Maybe`. -/
theorem maybe_of (h : Hereditary φ) {v : Value C} (hv : φ v) : φ (Maybe.of v) := by
  unfold Maybe.of
  split
  · exact hv
  · split
    · exact h.none
    · exact h.some hv

end Hereditary

/-- The entries with a pair put in hold the values of both. -/
theorem Entries.forall_insert {P : Value C → Prop} {key : String} {value : Value C}
    {entries : List (String × Value C)} (hvalue : P value) (hentries : ∀ e ∈ entries, P e.2) :
    ∀ e ∈ Entries.insert key value entries, P e.2 := by
  induction entries with
  | nil => simpa [Entries.insert] using hvalue
  | cons entry entries ih =>
    obtain ⟨hentry, hentries⟩ := List.forall_mem_cons.mp hentries
    simp only [Entries.insert]
    split
    · exact List.forall_mem_cons.mpr ⟨hvalue, List.forall_mem_cons.mpr ⟨hentry, hentries⟩⟩
    · split
      · exact List.forall_mem_cons.mpr ⟨hvalue, hentries⟩
      · exact List.forall_mem_cons.mpr ⟨hentry, ih hentries⟩

/-- The entries of two maps hold the values of both. -/
theorem Entries.forall_union {P : Value C → Prop} {first second : List (String × Value C)}
    (hfirst : ∀ e ∈ first, P e.2) (hsecond : ∀ e ∈ second, P e.2) :
    ∀ e ∈ Entries.union first second, P e.2 := by
  have hfold : ∀ {more entries : List (String × Value C)}, (∀ e ∈ more, P e.2) →
      (∀ e ∈ entries, P e.2) →
        ∀ e ∈ more.foldl (fun entries e => Entries.insert e.1 e.2 entries) entries, P e.2 := by
    intro more
    induction more with
    | nil => exact fun _ h => h
    | cons entry more ih =>
      intro entries hmore hentries
      obtain ⟨hentry, hmore⟩ := List.forall_mem_cons.mp hmore
      exact ih hmore (forall_insert hentry hentries)
  unfold Entries.union
  split
  · exact hfold hfirst hsecond
  · exact hfold hsecond hfirst

namespace Terms

/-- Terms under which a property of values is passed on: functions may be called on such values and
give such values, and identities may be handed out. -/
structure PassOn (T : Terms C S) (φ : Value C → Prop) : Prop where
  hereditary : Hereditary φ
  mints : T.Mints
  asks : ∀ f {args}, (∀ v ∈ args, φ v) → T.asks (.call f args)
  answers : ∀ {f args v}, T.answers (.call f args) v → φ v

namespace PassOn

variable {T : Terms C S} {φ : Value C → Prop}

theorem call (h : T.PassOn φ) (f : Func C) {args : List (Value C)} (hargs : ∀ v ∈ args, φ v) :
    T.Keeps φ (DynamicDispatch.call f args) :=
  (Keeps.request (h.asks f hargs)).mono fun _ hv => h.answers hv

/-- A method is looked up and its implementation called. -/
theorem protocol (h : T.PassOn φ) (p : Protocol) (method : String) {args : List (Value C)}
    (hargs : ∀ v ∈ args, φ v) : T.Keeps φ (p.call method args) := by
  unfold Protocol.call
  split
  · exact .fail _
  · have himplementation : T.Keeps (fun _ => True) (p.implementation ‹Signature› args) := by
      refine .world_bind fun w _ => ?_
      cases w.registry.resolve (lastArgument args) _ with
      | some f => exact fun _ _ => trivial
      | none => exact fun _ he => by cases he
    exact himplementation.bind fun f _ => h.call f hargs

/-- A standard method with one argument. -/
theorem method₁ (h : T.PassOn φ) (m : Method) {x : Value C} (hx : φ x) :
    T.Keeps φ (m.call [x]) :=
  h.protocol _ _ (List.forall_mem_singleton.mpr hx)

/-- A standard method with two arguments. -/
theorem method₂ (h : T.PassOn φ) (m : Method) {x y : Value C} (hx : φ x) (hy : φ y) :
    T.Keeps φ (m.call [x, y]) :=
  h.protocol _ _ (by simp [hx, hy])

/-- A function mapped over a container. -/
theorem map (h : T.PassOn φ) (f : Func C) {xs : Value C} (hxs : φ xs) :
    T.Keeps φ (Generic.map f xs) :=
  h.method₂ .map (h.hereditary.atom rfl rfl) hxs

/-- The rendering of a value is a text. -/
theorem render (h : T.PassOn φ) {x : Value C} (hx : φ x) :
    T.Keeps (fun _ => True) (Generic.render x) := by
  refine (h.method₁ .render hx).bind fun v _ => ?_
  split
  · exact .pure trivial
  · exact .fail _

theorem renderAll (h : T.PassOn φ) {xs : List (Value C)} (hxs : ∀ x ∈ xs, φ x) :
    T.Keeps (fun _ => True) (Generic.renderAll xs) :=
  .mapM_any fun x hx => h.render (hxs x hx)

theorem display (h : T.PassOn φ) {x : Value C} (hx : φ x) :
    T.Keeps (fun _ => True) (Generic.display x) := by
  refine (h.render hx).attempt.bind fun r _ => ?_
  split <;> exact .pure trivial

theorem textOf (h : T.PassOn φ) {x : Value C} (hx : φ x) :
    T.Keeps (fun _ => True) (Generic.textOf x) := by
  unfold Generic.textOf
  split
  · exact .pure trivial
  · exact h.render hx

/-- A new function, which is a value without parts. -/
theorem newFunc (h : T.PassOn φ) (name : String) (arity : Nat) (code : Code C) :
    T.Keeps (fun f => φ (.func f)) (Action.minting (DynamicDispatch.newFunc name arity code)) :=
  h.mints.keeps_minting (Grows.newFunc name arity code) fun _ _ => h.hereditary.atom rfl rfl

/-- Supplying arguments calls the function or gives one that waits for more. -/
theorem supply (h : T.PassOn φ) (n : Nat) (f : Func C) {args : List (Value C)}
    (hargs : ∀ v ∈ args, φ v) : T.Keeps φ (Currying.supply n f args) := by
  simp only [Currying.supply]
  split
  · exact h.call f fun v hv => hargs v (List.mem_of_mem_take hv)
  · exact (h.newFunc _ _ _).bind fun f hf => .pure hf

end PassOn

end Terms

end DynamicDispatch
