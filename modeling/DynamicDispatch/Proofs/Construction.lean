import DynamicDispatch.Proofs.Currying.Slots
import DynamicDispatch.Proofs.Methods.Provided
import DynamicDispatch.Proofs.Value.Conforming

/-!
# Everything that is built conforms

Construction checks values against the declared fields and stores exactly as many; the standard types
have constructors that check nothing and need not; and the methods of the library take conforming values
apart and put them together again. So every value that comes out of them conforms, as long as the
values that go in do.
-/

namespace DynamicDispatch

variable {C S : Type}

open Terms (Keeps)

namespace Construction

/-- Values fitted to one field more: the first value, nil when there is none, and the others fitted. -/
theorem fit_succ (n : Nat) (values : List (Value C)) :
    fit (n + 1) values = values.headD .nil :: fit n values.tail := by
  cases values with
  | nil => simp [fit, List.replicate_succ]
  | cons v values => simp [fit]

/-- When there is no violation, every declared field accepts the value that is stored for it. -/
theorem keeps_violations (fields : List (String × Descriptor (Value C)))
    (values : List (Value C)) :
    Terms.any.Keeps (fun violated => violated.isEmpty = true →
        List.Forall₂ (fun declared v => declared.2.accepts v = true) fields (fit fields.length values))
      (violations fields values : Action C S (List Violation)) := by
  induction fields generalizing values with
  | nil => exact .pure fun _ => by simp [fit]
  | cons field fields ih =>
    simp only [violations]
    split
    · rename_i haccepts
      refine (ih values.tail).mono fun violated hrest hnone => ?_
      rw [List.length_cons, fit_succ]
      exact .cons haccepts (hrest hnone)
    · refine (Keeps.any _).bind fun _ _ => (Keeps.any _).bind fun _ _ => ?_
      exact (Keeps.any _).bind fun _ _ => .pure fun hnone => by cases hnone

/-- Labelled by their positions, fields are what they were. -/
theorem map_snd_positions (fields : List (Descriptor (Value C))) :
    (positions fields).map (·.2) = fields := by
  apply List.ext_getElem <;> simp [positions]

/-- There are as many labelled fields. -/
theorem length_positions (fields : List (Descriptor (Value C))) :
    (positions fields).length = fields.length :=
  List.length_mapIdx

/-- Labelled by their positions, fields accept the same values. -/
theorem forall₂_positions_iff {fields : List (Descriptor (Value C))} {values : List (Value C)} :
    List.Forall₂ (fun declared v => declared.2.accepts v = true) (positions fields)
        (fit (positions fields).length values) ↔
      List.Forall₂ (fun t v => t.accepts v = true) fields (fit fields.length values) := by
  have hmap := List.forall₂_map_left_iff
    (f := fun declared : String × Descriptor (Value C) => declared.2) (l := positions fields)
    (u := fit fields.length values) (R := fun t v => t.accepts v = true)
  rw [map_snd_positions] at hmap
  rw [length_positions]
  exact hmap.symm

/-- Fitted values are values that were given, or nil. -/
theorem conforming_fit (n : Nat) {values : List (Value C)} (h : ∀ v ∈ values, v.Conforming) :
    ∀ v ∈ fit n values, v.Conforming := by
  refine List.forall_mem_append.mpr ⟨fun v hv => h v (List.mem_of_mem_take hv), fun v hv => ?_⟩
  rw [List.eq_of_mem_replicate hv]
  exact Value.Conforming.hereditary.atom rfl rfl

end Construction

/-- What is constructed is a record of the type, which conforms if the values do. -/
theorem RecordType.keeps_construct (type : RecordType (Value C)) (values : List (Value C)) :
    Terms.any.Keeps (fun v => ((∀ x ∈ values, x.Conforming) → v.Conforming) ∧
        ∃ fields, v = .record type fields)
      (type.construct values : Action C S (Value C)) := by
  refine (Construction.keeps_violations type.fields values).bind fun violated hfields => ?_
  split
  · exact .pure ⟨fun h => .record (hfields ‹_›) (Construction.conforming_fit _ h), _, rfl⟩
  · exact (Keeps.any _).bind fun _ _ => .fail _

/-- A case that has fields has a position, and the fields stand there. -/
theorem UnionType.exists_caseIndex {type : UnionType (Value C)} {case : String}
    {fields : List (Descriptor (Value C))} (h : type.caseFields? case = some fields) :
    ∃ i name, type.caseIndex? case = some i ∧ type.cases[i]? = some (name, fields) := by
  obtain ⟨e, he, rfl⟩ := Option.map_eq_some_iff.mp h
  obtain ⟨hname, i, hi, rfl, hbefore⟩ := List.find?_eq_some_iff_getElem.mp he
  refine ⟨i, type.cases[i].1, ?_, List.getElem?_eq_getElem hi⟩
  exact List.findIdx?_eq_some_iff_getElem.mpr ⟨hi, hname, fun j hj => by simpa using hbefore j hj⟩

/-- What is constructed is an instance of the first case of the name, which conforms if the values do. -/
theorem UnionType.keeps_construct (type : UnionType (Value C)) (case : String)
    (values : List (Value C)) :
    Terms.any.Keeps (fun v => ((∀ x ∈ values, x.Conforming) → v.Conforming) ∧
        ∃ i fields, type.caseIndex? case = some i ∧ v = .union type i fields)
      (type.construct case values : Action C S (Value C)) := by
  unfold UnionType.construct
  split
  · exact .fail _
  · rename_i fields hcase
    obtain ⟨i, name, hindex, hfields⟩ := UnionType.exists_caseIndex hcase
    have hmake : ∀ stored, type.make case stored = .union type i stored := by
      intro stored
      simp only [UnionType.make, hindex, Option.getD_some]
    refine (Construction.keeps_violations _ values).bind fun violated haccepts => ?_
    split
    · have haccepts := Construction.forall₂_positions_iff.mp (haccepts ‹_›)
      rw [hmake]
      exact .pure ⟨fun h => .union hfields haccepts (Construction.conforming_fit _ h), i, _, hindex, rfl⟩
    · exact (Keeps.any _).bind fun _ _ => .fail _

/-- The checked constructors, before they collect arguments. -/
inductive Constructs : Func C → Prop
  | record {g : Func C} {type : RecordType (Value C)} (hcode : g.code = .recordConstructor type) :
    Constructs g
  | case {g : Func C} {type : UnionType (Value C)} {case : String}
    (hcode : g.code = .caseConstructor type case) : Constructs g

/-- A function that stands for another one: it is this function, or has collected conforming values for
it. -/
inductive StandsFor (g : Func C) : Func C → Prop
  | self : StandsFor g g
  | collects {n : Nat} {p : Func C} {slots : List (Value C)}
    (hcollects : Currying.Collects n g slots p) (hslots : ∀ v ∈ slots, v.Conforming) :
    StandsFor g p

/-- Slots filled with later values hold what was there and what came. -/
theorem Currying.conforming_fill {slots later : List (Value C)} (hslots : ∀ v ∈ slots, v.Conforming)
    (hlater : ∀ v ∈ later, v.Conforming) : ∀ v ∈ fill slots later, v.Conforming := by
  induction slots generalizing later with
  | nil => exact hlater
  | cons slot slots ih =>
    obtain ⟨hslot, hrest⟩ := List.forall_mem_cons.mp hslots
    rcases hole_or_given slot with rfl | hgiven
    · cases later with
      | nil =>
        exact List.forall_mem_cons.mpr ⟨Value.Conforming.hereditary.atom rfl rfl, ih hrest hlater⟩
      | cons v later =>
        obtain ⟨hv, hlater⟩ := List.forall_mem_cons.mp hlater
        exact List.forall_mem_cons.mpr ⟨hv, ih hrest hlater⟩
    · rw [fill_cons_given hgiven]
      exact List.forall_mem_cons.mpr ⟨hslot, ih hrest hlater⟩

section Calls

variable [Embedding C S]

/-- A constructor gives a conforming value, which is no function, for conforming values. -/
theorem Constructs.conforming {g : Func C} (hg : Constructs g) {args : List (Value C)}
    (hargs : ∀ v ∈ args, v.Conforming) {w w' : World C S} {v : Value C}
    (h : (g.body args).Yields w (.ok v) w') : v.Conforming ∧ ∀ q, v ≠ .func q := by
  cases hg with
  | @record type hcode =>
    simp only [Callable.body, hcode] at h
    obtain ⟨hconforming, fields, rfl⟩ := (type.keeps_construct args).yields h
    exact ⟨hconforming hargs, fun _ heq => by cases heq⟩
  | @case type case hcode =>
    simp only [Callable.body, hcode] at h
    obtain ⟨hconforming, i, fields, -, rfl⟩ := (type.keeps_construct case args).yields h
    exact ⟨hconforming hargs, fun _ heq => by cases heq⟩

/-- Whatever stands for a constructor gives a conforming value, or a function that stands for it
again, for conforming values. -/
theorem StandsFor.conforming {g p : Func C} (hp : StandsFor g p) (hg : Constructs g)
    {args : List (Value C)} (hargs : ∀ v ∈ args, v.Conforming) {w w' : World C S} {v : Value C}
    (h : (p.body args).Yields w (.ok v) w') : v.Conforming ∧ ∀ q, v = .func q → StandsFor g q := by
  cases hp with
  | self =>
    obtain ⟨hv, hfunc⟩ := hg.conforming hargs h
    exact ⟨hv, fun q hq => absurd hq (hfunc q)⟩
  | @collects n _ slots hcollects hslots =>
    have hfilled := Currying.conforming_fill hslots hargs
    have hfinal : ∀ v ∈ (Currying.fill slots args).take n, v.Conforming :=
      fun v hv => hfilled v (List.mem_of_mem_take hv)
    rcases Nat.lt_or_ge (Currying.given ((Currying.fill slots args).take n)) n with hfew | henough
    · obtain ⟨hv, rfl⟩ := (hcollects.shows_body_of_given_lt (fun _ => false) hfew w).yields.unique h
      obtain rfl := Except.ok.inj hv
      refine ⟨Value.Conforming.hereditary.atom rfl rfl, fun q hq => ?_⟩
      obtain rfl := Value.func.inj hq
      exact .collects (Or.inl rfl) hfinal
    · rw [hcollects.body_of_le_given henough] at h
      obtain ⟨hv, hfunc⟩ := hg.conforming hfinal h.of_call
      exact ⟨hv, fun q hq => absurd hq (hfunc q)⟩

end Calls

end DynamicDispatch
