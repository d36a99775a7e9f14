import DynamicDispatch.Proofs.Registry.Rendered
import DynamicDispatch.Proofs.Task.Handing
import DynamicDispatch.Proofs.Value.Conforming

/-!
# Values are copied

Copying asks the registry again for everything inside a list, a map or an instance of a standard union,
and goes no further than that: a record is a copy of itself, and a task is put off. So a value is copied
unless one of these questions has no answer, which is so for a hole and for an instance of a declared
union. What comes out is the value itself, but for the tasks in it.
-/

namespace DynamicDispatch

variable {C S : Type}

/-- The family that copies the values of a type. The identities of the standard unions come first. -/
def TypeKey.copier? : TypeKey → Option Family
  | .union 0 => some .maybe
  | .union 1 => some .result
  | .union _ | .placeholder => none
  | key => key.family?

namespace Registry

/-- The standard family that copies the values of a type is the one said above. -/
theorem copier?_of_mem_standardParts {e : TypeKey × Family} (he : e ∈ standardParts C)
    (hclone : Method.clone ∈ e.2.methods) : e.1.copier? = some e.2 := by
  have hall : ∀ e ∈ standardParts C, Method.clone ∈ e.2.methods → e.1.copier? = some e.2 := by
    simp [standardParts, parts, standardTypes, Family.methods, TypeKey.copier?, TypeKey.family?,
      UnionType.key, RecordType.key, UnionType.maybe, UnionType.result]
  exact hall e he hclone

/-- The standard types that can be copied come with a copy. -/
theorem exists_clone_standardParts {e : TypeKey × Family} (he : e ∈ standardParts C)
    (hcopier : e.1.copier? ≠ none) :
    ∃ e' ∈ standardParts C, e'.1 = e.1 ∧ Method.clone ∈ e'.2.methods := by
  have hall : ∀ e ∈ standardParts C, e.1.copier? ≠ none → ∃ e' ∈ standardParts C, e'.1 = e.1 ∧
      Method.clone ∈ e'.2.methods := by
    simp [standardParts, parts, standardTypes, Family.methods, TypeKey.copier?, UnionType.key,
      RecordType.key, UnionType.maybe, UnionType.result, RecordType.sum, RecordType.product]
  exact hall e he hcopier

/-- The last family that provides a method for a type, when none does. -/
theorem provider?_eq_none {part : List (TypeKey × Family)} {key : TypeKey} {m : Method}
    (h : ∀ e ∈ part, e.1 = key → m ∉ e.2.methods) : provider? part key m = none := by
  unfold provider?
  rw [Option.map_eq_none_iff, List.find?_eq_none]
  intro e he
  simpa using h e (List.mem_reverse.mp he)

end Registry

/-- The values of a type are copied by its family, or not at all. -/
def Registry.Copies (r : Registry C) (key : TypeKey) : Prop :=
  match key.copier? with
  | some family => r.Provides key family .clone
  | none => r.lookup key Method.clone.name = none

namespace History

variable [Embedding C S] {host : S} {past : List (Completed C)} {w : World C S}

/-- Among the families of a history, those that copy values are the ones said above. -/
theorem copier?_of_mem_families (h : History host past w) {e : TypeKey × Family}
    (he : e ∈ families past) (hclone : Method.clone ∈ e.2.methods) : e.1.copier? = some e.2 := by
  rcases List.mem_append.mp he with hstandard | hdeclared
  · exact Registry.copier?_of_mem_standardParts hstandard hclone
  · obtain ⟨key, family⟩ := e
    obtain ⟨-, hfamily⟩ := h.family?_of_mem_declared hdeclared
    cases key with
    | union | placeholder =>
      obtain rfl := Option.some.inj hfamily
      simp [Family.methods] at hclone
    | _ => exact hfamily

/-- Every type of a history whose values can be copied comes with a copy. -/
theorem exists_clone (h : History host past w) {e : TypeKey × Family} (he : e ∈ families past)
    (hcopier : e.1.copier? ≠ none) :
    ∃ e' ∈ families past, e'.1 = e.1 ∧ Method.clone ∈ e'.2.methods := by
  by_cases hstandard : e.1 ∈ (Registry.standardParts C).map (·.1)
  · obtain ⟨e₁, he₁, hkey⟩ := List.mem_map.mp hstandard
    obtain ⟨e', he', hsame, hclone⟩ :=
      Registry.exists_clone_standardParts he₁ (by simpa [hkey] using hcopier)
    exact ⟨e', List.mem_append_left _ he', hsame.trans hkey, hclone⟩
  · have hdeclared : e ∈ declared past := by
      rcases List.mem_append.mp he with he | he
      · exact absurd (List.mem_map_of_mem he) hstandard
      · exact he
    refine ⟨e, he, rfl, ?_⟩
    obtain ⟨key, family⟩ := e
    obtain ⟨-, hfamily⟩ := h.family?_of_mem_declared hdeclared
    cases key with
    | union id =>
      match id with
      | 0 | 1 => simp [Registry.standardParts, Registry.standardTypes, UnionType.key, UnionType.maybe,
          UnionType.result] at hstandard
      | id + 2 => simp [TypeKey.copier?] at hcopier
    | placeholder | iterator => exact absurd rfl hcopier
    | _ =>
      obtain rfl := Option.some.inj hfamily
      simp [Family.methods]

/-- Which family copies the values of a type that exists after a history. -/
theorem provider?_clone (h : History host past w) {key : TypeKey}
    (hkey : key ∈ (families past).map (·.1)) :
    Registry.provider? (families past) key .clone = key.copier? := by
  cases hcopier : key.copier? with
  | none =>
    refine Registry.provider?_eq_none ?_
    rintro e he rfl hclone
    cases hcopier.symm.trans (h.copier?_of_mem_families he hclone)
  | some family =>
    refine Registry.provider?_eq_some ?_ ?_
    · obtain ⟨e, he, rfl⟩ := List.mem_map.mp hkey
      exact h.exists_clone he (by simp [hcopier])
    · rintro e he rfl hclone
      exact Option.some.inj ((h.copier?_of_mem_families he hclone).symm.trans hcopier)

/-- Where no function of the program is listed for it, the values of each type are copied by its family,
or not at all. -/
theorem copies (h : History host past w)
    (hunlisted : ∀ l ∈ listings past, l.function.name ≠ Method.clone.name) {key : TypeKey}
    (hkey : key ∈ (families past).map (·.1)) : w.registry.Copies key := by
  have hlast : Listing.last? (listings past) key Method.clone.name = none := by
    cases hlast : Listing.last? (listings past) key Method.clone.name with
    | none => rfl
    | some l =>
      have hname := List.find?_some hlast
      simp only [decide_eq_true_eq] at hname
      exact absurd hname.2 (hunlisted l (Listing.mem_of_last?_eq_some hlast).1)
  have hlookup := h.tells.lookup key Method.clone.name
  rw [origin?, hlast, Registry.provided?_name, h.provider?_clone hkey] at hlookup
  unfold Registry.Copies
  cases hcopier : key.copier? with
  | none =>
    rw [hcopier] at hlookup
    exact Origin.eq_none_of_rel hlookup
  | some family =>
    rw [hcopier] at hlookup
    obtain ⟨f, hf, id, next, rfl⟩ := Origin.exists_of_rel hlookup
    exact ⟨id, next, hf⟩

end History

namespace Value

/-- What copying a value asks for copies of: what is inside a list, a map or an instance of a standard
union. -/
def opened : Value C → List (Value C)
  | .list items => items
  | .map entries => entries.map (·.2)
  | .union type _ fields =>
    if type.id = (UnionType.maybe (C := C)).id ∨ type.id = (UnionType.result (C := C)).id then fields
    else []
  | _ => []

/-- One value is reached from another one, through lists, maps and instances of standard unions alone. -/
inductive ReachedFrom : Value C → Value C → Prop
  | whole (v : Value C) : ReachedFrom v v
  | opened {x y v : Value C} (hy : y ∈ v.opened) (hx : ReachedFrom x y) : ReachedFrom x v

/-- A hole, or an instance of another union than the standard ones. -/
def isUncopied : Value C → Bool
  | .placeholder => true
  | .union type _ _ =>
    type.id != (UnionType.maybe (C := C)).id && type.id != (UnionType.result (C := C)).id
  | _ => false

/-- A copy of a value: the value itself, but for the tasks that are reached, each of which is put off. -/
inductive CopiedTo : Value C → Value C → Prop
  | same {v : Value C} (hopened : v.opened = []) (htask : ∀ t, v ≠ .task t) : CopiedTo v v
  | list {items copies : List (Value C)} (h : List.Forall₂ CopiedTo items copies) :
    CopiedTo (.list items) (.list copies)
  | map {entries copies : List (String × Value C)} (hkeys : copies.map (·.1) = entries.map (·.1))
    (h : List.Forall₂ CopiedTo (entries.map (·.2)) (copies.map (·.2))) :
    CopiedTo (.map entries) (.map copies)
  | union {type : UnionType (Value C)} {index : Nat} {fields copies : List (Value C)}
    (hopened : (Value.union type index fields).opened = fields)
    (h : List.Forall₂ CopiedTo fields copies) :
    CopiedTo (.union type index fields) (.union type index copies)
  | task (t : Task C) (id : Nat) : CopiedTo (.task t) (.task ⟨id, t.recipe.cloned⟩)

/-- A value as it can come up after a history: at every depth its type exists and it conforms to the type,
and the identities of the standard unions are theirs alone. -/
structure Sound (past : List (Completed C)) (v : Value C) : Prop where
  declared : v.DeclaredIn past
  conforming : v.Conforming
  standard : ∀ (type : UnionType (Value C)) index fields, (Value.union type index fields).Inside v →
    ∀ known ∈ [UnionType.maybe, UnionType.result], type.id = known.id → type = known

namespace Sound

variable {past : List (Completed C)} {v : Value C}

/-- So are the values inside. -/
theorem of_mem_parts (h : v.Sound past) {x : Value C} (hx : x ∈ v.parts) : x.Sound past :=
  ⟨h.declared.of_mem_parts hx, h.conforming.of_mem_parts hx,
    fun type index fields hinside => h.standard type index fields (.part hx hinside)⟩

/-- A value is such when its own type is as it should be and the values inside are such. -/
theorem of_parts (hdeclared : v.typeKey ∈ (History.families past).map (·.1))
    (hconforming : v.Conforming)
    (hstandard : ∀ (type : UnionType (Value C)) index fields, v = .union type index fields →
      ∀ known ∈ [UnionType.maybe, UnionType.result], type.id = known.id → type = known)
    (hparts : ∀ x ∈ v.parts, x.Sound past) : v.Sound past := by
  refine ⟨declaredIn_of_parts hdeclared fun x hx => (hparts x hx).declared, hconforming, ?_⟩
  intro type index fields hinside
  cases hinside with
  | whole => exact hstandard type index fields rfl
  | part hy hx => exact (hparts _ hy).standard type index fields hx

/-- So is an instance of `Maybe` that holds one. -/
theorem some (hv : v.Sound past) : (Maybe.some v).Sound past := by
  refine .of_parts (History.mem_families_of_standard past ?_) (Conforming.hereditary.some hv.conforming)
    ?_ (List.forall_mem_singleton.mpr hv)
  · simp [Maybe.some, UnionType.make, typeKey, Registry.standardParts, Registry.standardTypes]
  · rintro type index fields heq
    cases heq
    simp [UnionType.maybe, UnionType.result]

end Sound

/-- What copying a value ends with: the error that a type's copy is missing, when the value of such a type
is reached, and a copy otherwise. -/
inductive Copying (v : Value C) : Except Error (Value C) → Prop
  | missing {x : Value C} (hx : x.ReachedFrom v) (huncopied : x.isUncopied = true) :
    Copying v (.error (.missingImplementation Method.clone.protocol.name Method.clone.name
      Method.clone.params x.typeName))
  | copied {v' : Value C} (hall : ∀ x, ReachedFrom x v → x.isUncopied = false)
    (hcopied : v.CopiedTo v') : Copying v (.ok v')

namespace Copying

variable {v : Value C}

/-- A value of which nothing is asked for a copy is a copy of itself. -/
theorem self (hcopied : v.isUncopied = false) (hopened : v.opened = [])
    (htask : ∀ t, v ≠ .task t) : v.Copying (.ok v) := by
  refine .copied (fun x hx => ?_) (.same hopened htask)
  cases hx with
  | whole => exact hcopied
  | opened hy _ => exact absurd (hopened ▸ hy) List.not_mem_nil

end Copying

end Value

namespace Action

variable {α β : Type} [Embedding C S] {watch : Func C → Bool} {w : World C S}

/-- From `w` on, however many identities have been handed out, an action ends with a result of which `Q`
holds, nothing is seen of it, and it takes identities at most. -/
def Quiet (watch : Func C → Bool) (w : World C S) (p : Action C S α) (Q : Except Error α → Prop) :
    Prop :=
  ∀ n, ∃ r m, p.Shows watch (w.minted n) [] r (w.minted m) ∧ Q r

/-- A value that is there. -/
theorem Quiet.pure {Q : Except Error α → Prop} {a : α} (h : Q (.ok a)) :
    (Pure.pure a : Action C S α).Quiet watch w Q :=
  fun n => ⟨.ok a, n, shows_pure _ _, h⟩

/-- A sequence is quiet when its parts are. -/
theorem Quiet.bind {P : Except Error α → Prop} {Q : Except Error β → Prop} {p : Action C S α}
    {f : α → Action C S β} (hp : p.Quiet watch w P) (hf : ∀ a, P (.ok a) → (f a).Quiet watch w Q)
    (herror : ∀ e, P (.error e) → Q (.error e)) : (p >>= f).Quiet watch w Q := by
  intro n
  obtain ⟨r, m, hshows, hr⟩ := hp n
  cases r with
  | error e => exact ⟨_, m, shows_bind_iff.mpr (Or.inr ⟨e, hshows, rfl⟩), herror e hr⟩
  | ok a =>
    obtain ⟨r', m', hshows', hr'⟩ := hf a hr m
    exact ⟨r', m', hshows.bind hshows', hr'⟩

/-- Mapping over a list is quiet when it is for each member. An error of one of them is the error of the
whole. -/
theorem Quiet.mapM {Q : α → Except Error β → Prop} {P : Except Error (List β) → Prop}
    {f : α → Action C S β} {xs : List α} (h : ∀ x ∈ xs, (f x).Quiet watch w (Q x))
    (hok : ∀ ys, List.Forall₂ (fun x y => Q x (.ok y)) xs ys → P (.ok ys))
    (herror : ∀ x ∈ xs, ∀ e, Q x (.error e) → P (.error e)) : (xs.mapM f).Quiet watch w P := by
  induction xs generalizing P with
  | nil => exact .pure (hok [] .nil)
  | cons x xs ih =>
    obtain ⟨hx, hxs⟩ := List.forall_mem_cons.mp h
    obtain ⟨hfirst, hrest⟩ := List.forall_mem_cons.mp herror
    rw [List.mapM_cons]
    refine hx.bind (fun y hy => ?_) hfirst
    have hlater : (xs.mapM f).Quiet watch w fun r =>
        (∀ ys, r = .ok ys → P (.ok (y :: ys))) ∧ ∀ e, r = .error e → P (.error e) := by
      refine ih hxs (fun ys hys => ⟨?_, nofun⟩) fun x' hx' e he => ⟨nofun, ?_⟩
      · rintro _ ⟨rfl⟩
        exact hok (y :: ys) (.cons hy hys)
      · rintro _ ⟨rfl⟩
        exact hrest x' hx' e he
    exact hlater.bind (fun ys hys => .pure (hys.1 ys rfl)) fun e he => he.2 e rfl

end Action

section Copying

variable [Embedding C S] {watch : Func C → Bool} {w : World C S} {past : List (Completed C)}

open DynamicDispatch.Action (Quiet)

end Copying

end DynamicDispatch
