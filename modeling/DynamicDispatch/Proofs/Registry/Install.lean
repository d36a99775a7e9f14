import DynamicDispatch.Extension
import Mathlib.Data.List.Induction
import Mathlib.Data.List.Nodup

/-!
# What installing families registers

A family's methods come into the registry under the names of the standard methods, which are all
different. So after several families have been installed the implementation of a method for a type is
that of the last family installed there which provides it, and where no family provides it the
registry is as it was.
-/

namespace DynamicDispatch

variable {C : Type}

namespace Method

/-- All standard methods. -/
def all : List Method :=
  [render, clone, shallowClone, count, first, rest, conj, iterator, keys, assoc, dissoc, get, empty,
    append, foldl, foldr, map, cata, bimap, ap, of, flatten]

/-- Two standard methods of one name are the same. -/
theorem name_injective : Function.Injective name := by
  intro m m' h
  have hall : ∀ m : Method, m ∈ all := by intro m; cases m <;> decide
  have hnodup : (all.map name).Nodup := by decide
  exact List.inj_on_of_nodup_map hnodup (hall m) (hall m') h

end Method

/-- No family provides a method twice. -/
theorem Family.nodup_methods (family : Family) : family.methods.Nodup := by
  cases family <;> decide

namespace Registry

/-- Registering functions for a type leaves alone what is looked up elsewhere. -/
theorem lookup_extend_of_ne {key other : TypeKey} {name : String} {functions : List (Func C)}
    (h : key = other → ∀ f ∈ functions, f.name ≠ name) (r : Registry C) (n : Nat) :
    ((r.extend key functions).run n).1.lookup other name = r.lookup other name := by
  induction functions generalizing r n with
  | nil => rfl
  | cons f functions ih =>
    have htail : key = other → ∀ g ∈ functions, g.name ≠ name :=
      fun hkey g hg => h hkey g (List.mem_cons_of_mem f hg)
    change ((extend key functions _).run _).1.lookup other name = _
    rw [ih htail, lookup_register, if_neg]
    exact fun hboth => h hboth.1 f List.mem_cons_self hboth.2

/-- Of functions of different names that are registered for a type each one is looked up by its name,
collecting its arguments. -/
theorem lookup_extend_of_mem {key : TypeKey} {functions : List (Func C)}
    (hnames : (functions.map (·.name)).Nodup) {f : Func C} (hf : f ∈ functions) (r : Registry C)
    (n : Nat) :
    ∃ next, ((r.extend key functions).run n).1.lookup key f.name =
      some ((curry f).run next).1 := by
  induction functions generalizing r n with
  | nil => exact absurd hf List.not_mem_nil
  | cons g functions ih =>
    obtain ⟨hg, hnames⟩ := List.nodup_cons.mp hnames
    rcases List.mem_cons.mp hf with rfl | hf
    · have hlater : key = key → ∀ g ∈ functions, g.name ≠ f.name :=
        fun _ g hmem hname => hg (List.mem_map.mpr ⟨g, hmem, hname⟩)
      refine ⟨n, ?_⟩
      change ((extend key functions _).run _).1.lookup key f.name = _
      rw [lookup_extend_of_ne hlater, lookup_register, if_pos ⟨rfl, rfl⟩]
      rfl
    · exact ih hnames hf _ _

/-- The functions that stand for some methods of a family, with identities from `n` on. -/
def functionsFor (family : Family) (methods : List Method) (n : Nat) : List (Func C) :=
  methods.mapIdx fun i m => ⟨n + i, m.name, m.arity, .builtin family m⟩

/-- These functions have the names of the methods. -/
theorem map_name_functionsFor (family : Family) (methods : List Method) (n : Nat) :
    (functionsFor (C := C) family methods n).map (·.name) = methods.map Method.name := by
  apply List.ext_getElem <;> simp [functionsFor]

/-- Installing a family registers the functions for its methods. -/
theorem run_install (key : TypeKey) (family : Family) (r : Registry C) (n : Nat) :
    ∃ next, ((r.install key family).run n).1 =
      ((r.extend key (functionsFor family family.methods n)).run next).1 := by
  have hrun : ∀ (methods : List Method) (n : Nat),
      ((methods.mapM fun m => newFunc (C := C) m.name m.arity (.builtin family m)).run n).1 =
        functionsFor family methods n := by
    intro methods
    induction methods with
    | nil => exact fun _ => rfl
    | cons m methods ih =>
      intro n
      rw [List.mapM_cons, functionsFor, List.mapIdx_cons]
      refine congrArg₂ List.cons rfl ((ih (n + 1)).trans ?_)
      simp only [functionsFor, Nat.add_assoc, Nat.add_comm 1]
  refine ⟨((family.methods.mapM fun m =>
    newFunc (C := C) m.name m.arity (.builtin family m)).run n).2, ?_⟩
  rw [← hrun family.methods n]
  rfl

/-- The registry has a family's method for a type, as it was installed. -/
def Provides (r : Registry C) (key : TypeKey) (family : Family) (m : Method) : Prop :=
  ∃ id next, r.lookup key m.name =
    some ((curry ⟨id, m.name, m.arity, .builtin family m⟩).run next).1

/-- Installing a family leaves alone the methods that it does not provide, and other types. -/
theorem lookup_install {key other : TypeKey} {family : Family} {m : Method}
    (h : key = other → m ∉ family.methods) (r : Registry C) (n : Nat) :
    ((r.install key family).run n).1.lookup other m.name = r.lookup other m.name := by
  obtain ⟨next, hrun⟩ := run_install key family r n
  rw [hrun]
  refine lookup_extend_of_ne (fun hkey f hf hname => h hkey ?_) r next
  have hmem := List.mem_map_of_mem (f := (·.name)) hf
  rw [map_name_functionsFor, hname] at hmem
  exact (List.mem_map_of_injective Method.name_injective).mp hmem

/-- Installing a family registers every method that it provides. -/
theorem provides_install {key : TypeKey} {family : Family} {m : Method} (hm : m ∈ family.methods)
    (r : Registry C) (n : Nat) : ((r.install key family).run n).1.Provides key family m := by
  obtain ⟨next, hrun⟩ := run_install key family r n
  obtain ⟨i, hi, rfl⟩ := List.getElem_of_mem hm
  have hnames : ((functionsFor (C := C) family family.methods n).map (·.name)).Nodup := by
    rw [map_name_functionsFor]
    exact family.nodup_methods.map Method.name_injective
  have hmem : (⟨n + i, family.methods[i].name, family.methods[i].arity,
      .builtin family family.methods[i]⟩ : Func C) ∈ functionsFor family family.methods n :=
    List.mem_mapIdx.mpr ⟨i, hi, rfl⟩
  obtain ⟨next', hlookup⟩ := lookup_extend_of_mem hnames hmem r next
  exact ⟨n + i, next', hrun ▸ hlookup⟩

/-- The last of some families with their types that provides a method for a type. -/
def provider? (part : List (TypeKey × Family)) (key : TypeKey) (m : Method) : Option Family :=
  (part.reverse.find? fun e => e.1 = key ∧ m ∈ e.2.methods).map (·.2)

/-- The family installed last comes first. -/
theorem provider?_concat (part : List (TypeKey × Family)) (e : TypeKey × Family) (key : TypeKey)
    (m : Method) : provider? (part ++ [e]) key m =
      if e.1 = key ∧ m ∈ e.2.methods then some e.2 else provider? part key m := by
  unfold provider?
  rw [List.reverse_append, List.reverse_singleton, List.singleton_append, List.find?_cons]
  by_cases h : e.1 = key ∧ m ∈ e.2.methods <;> simp [h]

/-- After some families have been installed, the last one that provides a method for a type is
looked up there. -/
theorem provides_installPart {part : List (TypeKey × Family)} {key : TypeKey} {family : Family}
    {m : Method} (h : provider? part key m = some family) (r : Registry C) (n : Nat) :
    ((r.installPart part).run n).1.Provides key family m := by
  induction part using List.reverseRecOn with
  | nil => simp [provider?] at h
  | append_singleton part e ih =>
    rw [installPart, List.foldlM_append]
    change ((install e.1 e.2 ((r.installPart part).run n).1).run _).1.Provides key family m
    rw [provider?_concat] at h
    by_cases he : e.1 = key ∧ m ∈ e.2.methods
    · obtain rfl : e.2 = family := by simpa [he] using h
      exact he.1 ▸ provides_install he.2 _ _
    · rw [if_neg he] at h
      obtain ⟨id, next, hlookup⟩ := ih h
      exact ⟨id, next, (lookup_install (fun hkey hm => he ⟨hkey, hm⟩) _ _).trans hlookup⟩

/-- Installing families that do not provide a method for a type leaves alone what is looked up
there. -/
theorem lookup_installPart {part : List (TypeKey × Family)} {key : TypeKey} {m : Method}
    (h : provider? part key m = none) (r : Registry C) (n : Nat) :
    ((r.installPart part).run n).1.lookup key m.name = r.lookup key m.name := by
  induction part using List.reverseRecOn with
  | nil => rfl
  | append_singleton part e ih =>
    rw [installPart, List.foldlM_append]
    change ((install e.1 e.2 ((r.installPart part).run n).1).run _).1.lookup key m.name = _
    rw [provider?_concat] at h
    by_cases he : e.1 = key ∧ m ∈ e.2.methods
    · simp [he] at h
    · rw [if_neg he] at h
      rw [lookup_install (fun hkey hm => he ⟨hkey, hm⟩), ih h]

end Registry

end DynamicDispatch
